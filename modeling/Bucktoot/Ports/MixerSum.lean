import Bucktoot.Verified.Saturate
import Bucktoot.Ports.MixerExact

/-!
# The sum of the voices

`mix_samples` adds the playing voices to the buffer one after the other and
limits every value after each of them.  So a value of the buffer is not the
sum of the contributions but their saturating sum, in the order of the slots,
and `mixSamples_sum` says for which contributions this makes no difference.

What a voice contributes is what it puts into a silent buffer when it is
mixed alone; what becomes of the voice does not depend on the others at all.
-/

namespace Bucktoot.Ports.Mixer

open Bucktoot.Verified.Saturate

section Sum

variable {F : Type} [Add F] [Sub F] [Mul F] [Div F] [IntCast F] [LT F] [LE F]
  [DecidableLT F] [DecidableLE F] [Double F]

/-- What a voice contributes to a value of a buffer of `n` frames. -/
def contribution (g : Globals F) (n v : Nat) (s : WaveSample F) : Int :=
  if s.play ≠ 0 then valueAt (mixSample g (List.replicate (4 * n) 0) s).dst v
  else 0

/-- What becomes of a voice over a buffer of `n` frames. -/
def movedOn (g : Globals F) (n : Nat) (s : WaveSample F) : WaveSample F :=
  if s.play ≠ 0 then (mixSample g (List.replicate (4 * n) 0) s).sample else s

end Sum

theorem clampShort_eq_clamp (a : Int) : clampShort a = clamp (-32768) 32767 a := by
  unfold clampShort clamp
  split
  · omega
  · split <;> omega

section Sum

variable {F : Type} [Add F] [Sub F] [Mul F] [Div F] [IntCast F] [LT F] [LE F]
  [DecidableLT F] [DecidableLE F] [Double F]
  {g : Globals F} (hg : g.bytes * g.channels = 4)

include hg

/-- A playing voice adds its contribution, limited, to whatever the buffer
holds. -/
theorem mixSample_value {n : Nat} {dst : List UInt8}
    (hdst : dst.length = 4 * n) {s : WaveSample F} (hplay : s.play ≠ 0)
    (v : Nat) :
    valueAt (mixSample g dst s).dst v =
      clamp (-32768) 32767 (valueAt dst v + contribution g n v s) := by
  rw [(mixSample_mixed hg hdst s).value v, if_neg (Nat.not_lt_zero v),
    contribution, if_pos hplay, mixSample_silent hg, clampShort_eq_clamp]
  rfl

/-- The voice does not see what is in the buffer. -/
theorem mixSample_movedOn {n : Nat} {dst : List UInt8}
    (hdst : dst.length = 4 * n) {s : WaveSample F} (hplay : s.play ≠ 0) :
    (mixSample g dst s).sample = movedOn g n s := by
  rw [(mixSample_mixed hg hdst s).sample, movedOn, if_pos hplay,
    (mixSample_mixed hg (n := n) (by simp) s).sample]

/-- The loop of `mix_samples`, started on any buffer of `n` frames. -/
theorem mixList_spec (n : Nat) (list : List (WaveSample F)) :
    ∀ dst : List UInt8, dst.length = 4 * n →
      (∀ v, valueAt (mixList g dst list).1 v =
        satFrom (-32768) 32767 (valueAt dst v)
          (list.map (contribution g n v))) ∧
      (mixList g dst list).2 = list.map (movedOn g n) := by
  induction list with
  | nil => exact fun dst _ => ⟨fun v => rfl, rfl⟩
  | cons s rest ih =>
      intro dst hdst
      by_cases hplay : s.play ≠ 0
      · have hlen : (mixSample g dst s).dst.length = 4 * n :=
          (mixSample_mixed hg hdst s).length.trans hdst
        obtain ⟨hvalue, hlist⟩ := ih _ hlen
        rw [mixList, if_pos hplay]
        dsimp only
        refine ⟨?_, ?_⟩
        · intro v
          rw [hvalue v, mixSample_value hg hdst hplay]
          rfl
        · rw [hlist, mixSample_movedOn hg hdst hplay]
          rfl
      · obtain ⟨hvalue, hlist⟩ := ih dst hdst
        rw [mixList, if_neg hplay]
        dsimp only
        refine ⟨?_, ?_⟩
        · intro v
          have hzero : clamp (-32768) 32767
              (valueAt dst v + contribution g n v s) = valueAt dst v := by
            rw [contribution, if_neg hplay, Int.add_zero, ← clampShort_eq_clamp]
            exact clampShort_of_bounds (valueAt_bounds dst v)
          rw [hvalue v, List.map_cons, satFrom, satFrom, List.foldl_cons, hzero]
        · rw [hlist, List.map_cons, movedOn, if_neg hplay]

end Sum

/-! ## The order of the slots -/

section Order

variable {F : Type} [Add F] [Sub F] [Mul F] [Div F] [IntCast F] [LT F] [LE F]
  [DecidableLT F] [DecidableLE F] [Double F]

/-- **What the order of the slots decides.**  A value of the output is the sum
of the contributions, limited after every voice in the order of the slots.  It
is the exact sum limited once, in whatever slots the voices are, exactly if
the contributions to it have one sign or neither sign alone goes over a limit.
What becomes of a voice depends on that voice only. -/
theorem mixSamples_sum (speed : F) (n : Nat) (list : List (WaveSample F)) :
    (∀ v, valueAt (mixSamples (stereo speed) (4 * n) list).1 v =
      satFrom (-32768) 32767 0 (list.map (contribution (stereo speed) n v))) ∧
    (∀ v,
      (∀ list' : List (WaveSample F), list'.Perm list →
        valueAt (mixSamples (stereo speed) (4 * n) list').1 v =
          clamp (-32768) 32767
            (list.map (contribution (stereo speed) n v)).sum) ↔
      OrderFree (-32768) 32767
        (list.map (contribution (stereo speed) n v))) ∧
    (mixSamples (stereo speed) (4 * n) list).2 =
      list.map (movedOn (stereo speed) n) := by
  have hvalue : ∀ (list' : List (WaveSample F)) (v : Nat),
      valueAt (mixSamples (stereo speed) (4 * n) list').1 v =
        satFrom (-32768) 32767 0
          (list'.map (contribution (stereo speed) n v)) := by
    intro list' v
    have hspec := mixList_spec (g := stereo speed) rfl n list'
      (List.replicate (4 * n) 0) (by simp)
    rw [mixSamples, hspec.1 v, valueAt_replicate_zero]
  refine ⟨hvalue list, ?_, ?_⟩
  · intro v
    have horder := satFrom_eq_clamp_iff (contribution (stereo speed) n v)
      (by decide : (-32768 : Int) < 0) (by decide : (0 : Int) < 32767) list
    simpa only [hvalue] using horder
  · exact (mixList_spec (g := stereo speed) rfl n list
      (List.replicate (4 * n) 0) (by simp)).2

end Order

/-- A voice with one frame of one channel. -/
def oneFrame (lo hi : UInt8) : WaveSample ℚ :=
  { data := [lo, hi], dataLen := 2, sampleRate := 44100, channels := 1
    bytes := 2, doLoop := 0, loopStart := 0, loopEnd := 0, play := 1
    currentFrame := 0, speed := 1 }

/-- A voice holds whole frames of sixteen-bit data. -/
def SixteenBit (s : WaveSample ℚ) : Prop :=
  s.bytes = 2 ∧ 1 ≤ s.channels ∧ (s.data.length : Int) = s.dataLen ∧
    ∃ frames, s.dataLen = 2 * s.channels * frames

/-- Two samples of 30000 and one of -30000 give 2767 in this order, and not
30000: the second one is cut off before the third one is added. -/
theorem threeVoices_not_sum :
    ¬ ∀ (speed : ℚ) (n : Nat) (list : List (WaveSample ℚ)),
      (∀ s ∈ list, SixteenBit s) → ∀ v,
        valueAt (mixSamples (stereo speed) (4 * n) list).1 v =
          clamp (-32768) 32767
            (list.map (contribution (stereo speed) n v)).sum := by
  intro hall
  have hone : ∀ lo hi : UInt8, SixteenBit (oneFrame lo hi) :=
    fun _ _ => ⟨rfl, Int.le_refl 1, rfl, 1, rfl⟩
  have h := hall 1 1
    [oneFrame 0x30 0x75, oneFrame 0x30 0x75, oneFrame 0xd0 0x8a]
    (by simp [hone]) 0
  exact absurd h (by decide +kernel)

end Bucktoot.Ports.Mixer
