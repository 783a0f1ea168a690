import Bucktoot.Ports.MixerExact
import Bucktoot.Ports.VoicePool

/-!
# The output buffers of `wave_player.c`

`start_audio` takes any format, `begin_audio_buffers` makes buffers of thirty
milliseconds for it, and the mixer fills them.  A pass of the mixer stores two
`SHORT`s and moves on by the frame size of the device, whatever that is, so
whether the last pass stays inside depends on the format.

* `mixSamplesWrites` — every byte offset a callback writes;
* `mixLoop_writes`, `mixLoop_writes_of_loop` — the loop writes four bytes at
  multiples of the frame size, and a looping voice does so up to the end;
* `staysInside_iff` — the formats for which all of this is inside the buffer.
-/

namespace Bucktoot.Ports.DeviceBuffer

open Bucktoot.Ports.Mixer
open Bucktoot.Ports.VoicePool

/-! ## A loop that stores four bytes at a time -/

/-- The last pass over a buffer of `B` bytes at distance `k` fits. -/
def LastPassFits (k B : Nat) : Prop :=
  B = 0 ∨ 4 ≤ k ∧ (B % k = 0 ∨ 4 ≤ B % k)

/-- The offset `p` belongs to a pass over a buffer of `len` bytes; the passes
start at `i` and are `k` bytes apart. -/
def InPass (k i len : Nat) (p : Int) : Prop :=
  ∃ n, i + k * n < len ∧ (i + k * n : Nat) ≤ p ∧ p < (i + k * n : Nat) + 4

theorem InPass.first {k i len : Nat} {p : Int} (hi : i < len) (hlow : i ≤ p)
    (hhigh : p < i + 4) : InPass k i len p :=
  ⟨0, by rwa [Nat.mul_zero], by rwa [Nat.mul_zero], by rwa [Nat.mul_zero]⟩

theorem InPass.later {k i len : Nat} {p : Int} (h : InPass k (i + k) len p) :
    InPass k i len p := by
  obtain ⟨n, hn⟩ := h
  refine ⟨n + 1, ?_⟩
  rw [Nat.mul_succ, ← Nat.add_assoc, Nat.add_right_comm]
  exact hn

theorem passes_fit_iff {k : Nat} (hk : 0 < k) (B : Nat) :
    (∀ n, k * n < B → k * n + 4 ≤ B) ↔ LastPassFits k B := by
  have hsplit := Nat.div_add_mod B k
  have hrest := Nat.mod_lt B hk
  constructor
  · intro h
    rcases Nat.eq_zero_or_pos B with hzero | hpos
    · exact .inl hzero
    · refine .inr ?_
      rcases Nat.eq_zero_or_pos (B % k) with hmod | hmod
      · -- the last pass is one frame in front of the end
        obtain ⟨q, hq⟩ : ∃ q, B / k = q + 1 := by
          refine Nat.exists_eq_add_one.2 (Nat.pos_of_ne_zero (fun hq => ?_))
          rw [hq, Nat.mul_zero] at hsplit
          omega
        rw [hq, Nat.mul_succ] at hsplit
        have := h q (by omega)
        exact ⟨by omega, .inl hmod⟩
      · have := h (B / k) (by omega)
        exact ⟨by omega, .inr (by omega)⟩
  · rintro (hzero | ⟨hk4, hmod⟩) n hn
    · omega
    · rcases hmod with hmod | hmod
      · have hlt : n < B / k := by
          apply Nat.lt_of_mul_lt_mul_left (a := k)
          omega
        have := Nat.mul_le_mul_left k hlt
        rw [Nat.mul_succ] at this
        omega
      · have hle : n ≤ B / k := by
          rw [Nat.le_div_iff_mul_le hk, Nat.mul_comm]
          exact hn.le
        have := Nat.mul_le_mul_left k hle
        omega

/-! ## The functions -/

/-- The value of an `int`. -/
def int32 (n : Int) : Int := n.bmod (2 ^ 32)

section Model

variable {F : Type}

/-- The globals `start_audio` sets, at a speed. -/
def startAudio (bits channels : Nat) (speed : F) : Globals F :=
  { bytes := bits >>> 3, channels := channels, speed := speed }

/-- `buf_size` of `begin_audio_buffers`. -/
def bufSize (sampleRate : Nat) (g : Globals F) : Int :=
  let x := g.bytes
  (int32 (int32 (int32 (sampleRate * g.channels) * x) * 30)).tdiv 1000

variable [Add F] [Sub F] [Mul F] [Div F] [IntCast F] [LT F] [LE F]
  [DecidableLT F] [DecidableLE F] [Double F]

/-- The byte offsets the voices of a list write, as `mixList` takes them one
after the other. -/
def mixListWrites (g : Globals F) :
    List UInt8 → List (WaveSample F) → List Int
  | _, [] => []
  | dst, s :: rest =>
      if s.play ≠ 0 then
        let m := mixSample g dst s
        m.writes ++ mixListWrites g m.dst rest
      else mixListWrites g dst rest

/-- The byte offsets `mix_samples` writes: the `memset` and the voices. -/
def mixSamplesWrites (g : Globals F) (dstSize : Nat)
    (list : List (WaveSample F)) : List Int :=
  (List.range dstSize).map (fun i : Nat => (i : Int)) ++
    mixListWrites g (List.replicate dstSize 0) list

/-- No callback of a device of this format writes outside of its buffer,
whatever plays. -/
def StaysInside (F : Type) [Add F] [Sub F] [Mul F] [Div F] [IntCast F] [LT F]
    [LE F] [DecidableLT F] [DecidableLE F] [Double F]
    (sampleRate bits channels : Nat) : Prop :=
  ∀ (speed : F) (list : List (WaveSample F)),
    ∀ p ∈ mixSamplesWrites (startAudio bits channels speed)
      (bufSize sampleRate (startAudio bits channels speed)).toNat list,
      0 ≤ p ∧ p < bufSize sampleRate (startAudio bits channels speed)

/-! ## What the loop writes -/

section

variable (g : Globals F) (iframeSize : Int) (frameSize frameCount : F)

theorem mixFrame_length (i : Nat) (m : Mix F) :
    (mixFrame g iframeSize frameSize frameCount i m).dst.length =
      m.dst.length := by
  simp [mixFrame]

theorem mixLoop_length (fuel i : Nat) (m : Mix F) :
    (mixLoop g iframeSize frameSize frameCount fuel i m).dst.length =
      m.dst.length :=
  mixLoop_rel (fun m m' : Mix F => m'.dst.length = m.dst.length)
    (fun _ => rfl) (fun _ _ _ h h' => h'.trans h)
    (mixFrame_length g iframeSize frameSize frameCount) fuel i m

theorem mem_mixFrame_writes (i : Nat) (m : Mix F) {p : Int} :
    p ∈ (mixFrame g iframeSize frameSize frameCount i m).writes ↔
      p ∈ m.writes ∨ (i ≤ p ∧ p < i + 4) := by
  show p ∈ m.writes ++ _ ↔ _
  simp only [List.mem_append, List.mem_cons, List.not_mem_nil, or_false]
  apply or_congr_right
  omega

/-- What has been written stays written. -/
theorem mixLoop_writes_keeps (fuel i : Nat) (m : Mix F) :
    m.writes ⊆ (mixLoop g iframeSize frameSize frameCount fuel i m).writes :=
  mixLoop_rel (fun m m' : Mix F => m.writes ⊆ m'.writes)
    (fun _ => List.Subset.refl _) (fun _ _ _ => List.Subset.trans)
    (fun i m _ hp =>
      (mem_mixFrame_writes g iframeSize frameSize frameCount i m).2 (.inl hp))
    fuel i m

/-- Every write of the loop belongs to a pass that starts inside. -/
theorem mixLoop_writes (fuel i : Nat) (m : Mix F) {p : Int}
    (hp : p ∈ (mixLoop g iframeSize frameSize frameCount fuel i m).writes) :
    p ∈ m.writes ∨ InPass (g.bytes * g.channels) i m.dst.length p := by
  induction fuel generalizing i m with
  | zero => exact .inl hp
  | succ fuel ih =>
      rw [mixLoop] at hp
      split at hp
      · rename_i hi
        have hpass : ∀ {q : Int},
            q ∈ (mixFrame g iframeSize frameSize frameCount i m).writes →
            q ∈ m.writes ∨ InPass (g.bytes * g.channels) i m.dst.length q := by
          intro q hq
          rcases (mem_mixFrame_writes _ _ _ _ _ _).1 hq with hold | ⟨hlo, hhi⟩
          · exact .inl hold
          · exact .inr (.first hi hlo hhi)
        dsimp only at hp
        split at hp
        · exact hpass hp
        · rcases ih _ _ hp with hold | hlater
          · exact hpass hold
          · rw [mixFrame_length] at hlater
            exact .inr hlater.later
      · exact .inl hp

/-- A looping voice writes in every pass that starts inside. -/
theorem mixLoop_writes_of_loop (n : Nat) :
    ∀ (fuel i : Nat) (m : Mix F), m.sample.doLoop ≠ 0 → m.sample.play ≠ 0 →
      n < fuel → i + g.bytes * g.channels * n < m.dst.length →
      ((i + g.bytes * g.channels * n : Nat) : Int) + 3 ∈
        (mixLoop g iframeSize frameSize frameCount fuel i m).writes := by
  induction n with
  | zero =>
      intro fuel i m _ _ hfuel hi
      obtain ⟨fuel, rfl⟩ : ∃ f, fuel = f + 1 := ⟨fuel - 1, by omega⟩
      rw [Nat.mul_zero, Nat.add_zero] at hi ⊢
      have hpass : (i : Int) + 3 ∈
          (mixFrame g iframeSize frameSize frameCount i m).writes :=
        (mem_mixFrame_writes _ _ _ _ _ _).2 (.inr ⟨by omega, by omega⟩)
      rw [mixLoop, if_pos hi]
      dsimp only
      split
      · exact hpass
      · exact mixLoop_writes_keeps g iframeSize frameSize frameCount _ _ _ hpass
  | succ n ih =>
      intro fuel i m hloop hplay hfuel hi
      obtain ⟨fuel, rfl⟩ : ∃ f, fuel = f + 1 := ⟨fuel - 1, by omega⟩
      rw [Nat.mul_succ, ← Nat.add_assoc, Nat.add_right_comm] at hi ⊢
      have hstep : (stepFrame g frameSize frameCount m.sample).play ≠ 0 := by
        rw [stepFrame_play_of_loop g frameSize frameCount hloop]
        exact hplay
      have hfixed := (stepFrame_continues g frameSize frameCount m.sample).fixed
      have hloop' : (stepFrame g frameSize frameCount m.sample).doLoop ≠ 0 := by
        rw [hfixed]
        exact hloop
      rw [mixLoop, if_pos (by omega)]
      show _ ∈ (if (stepFrame g frameSize frameCount m.sample).play = 0 then
        _ else _ : Mix F).writes
      rw [if_neg hstep]
      refine ih fuel _ _ hloop' hstep (by omega) ?_
      rw [mixFrame_length]
      exact hi

end

theorem mixSample_dst_length (g : Globals F) (dst : List UInt8)
    (s : WaveSample F) : (mixSample g dst s).dst.length = dst.length := by
  rcases mixSample_cases g dst s with heq | heq | heq
  · rw [heq]
  · rw [heq]
  · rw [heq]
    exact mixLoop_length _ _ _ _ _ _ _

theorem mixSample_writes (g : Globals F) (dst : List UInt8) (s : WaveSample F)
    {p : Int} (hp : p ∈ (mixSample g dst s).writes) :
    InPass (g.bytes * g.channels) 0 dst.length p := by
  rcases mixSample_cases g dst s with heq | heq | heq
  · rw [heq] at hp
    cases hp
  · rw [heq] at hp
    cases hp
  · rw [heq] at hp
    rcases mixLoop_writes _ _ _ _ _ _ _ hp with hnil | hpass
    · cases hnil
    · exact hpass

/-- A call on a looping voice goes through all of these passes. -/
theorem mixSample_writes_of_loop (g : Globals F) {dst : List UInt8}
    {s : WaveSample F} {n : Nat} (hsize : 0 < s.bytes * s.channels)
    (hloop : s.doLoop ≠ 0) (hplay : s.play ≠ 0)
    (hpos : 0 < g.bytes * g.channels)
    (hn : g.bytes * g.channels * n < dst.length) :
    ((g.bytes * g.channels * n : Nat) : Int) + 3 ∈
      (mixSample g dst s).writes := by
  have hcont := checkLoop_continues s ((s.bytes * s.channels : Int) : F)
  have hloop' : (checkLoop s ((s.bytes * s.channels : Int) : F)).doLoop ≠ 0 := by
    rw [hcont.fixed]
    exact hloop
  have hplay' : (checkLoop s ((s.bytes * s.channels : Int) : F)).play ≠ 0 := by
    rw [checkLoop_play_of_loop hloop]
    exact hplay
  have hfuel : n < dst.length :=
    Nat.lt_of_le_of_lt (Nat.le_mul_of_pos_left n hpos) hn
  have hwrite := mixLoop_writes_of_loop g (s.bytes * s.channels)
    ((s.bytes * s.channels : Int) : F)
    ((s.dataLen : F) / ((s.bytes * s.channels : Int) : F)) n dst.length 0
    ⟨dst, checkLoop s ((s.bytes * s.channels : Int) : F), [], [], []⟩
    hloop' hplay' hfuel (by rw [Nat.zero_add]; exact hn)
  rw [Nat.zero_add] at hwrite
  rw [mixSample_of_playing hsize hplay']
  exact hwrite

theorem mixListWrites_mem (g : Globals F) (dst : List UInt8)
    (list : List (WaveSample F)) {p : Int} (hp : p ∈ mixListWrites g dst list) :
    InPass (g.bytes * g.channels) 0 dst.length p := by
  induction list generalizing dst with
  | nil => cases hp
  | cons s rest ih =>
      rw [mixListWrites] at hp
      split at hp
      · rcases List.mem_append.1 hp with hs | hrest
        · exact mixSample_writes g dst s hs
        · rw [← mixSample_dst_length g dst s]
          exact ih _ hrest
      · exact ih _ hp

/-! ## Which formats fit -/

/-- A looping voice with one byte of data. -/
def loopVoice : WaveSample F :=
  { data := [0], dataLen := 1, sampleRate := 8000, channels := 1, bytes := 1
    doLoop := 1, loopStart := 0, loopEnd := 0, play := 1
    currentFrame := ((0 : Int) : F), speed := ((1 : Int) : F) }

/-- It writes in every pass that starts inside of the buffer. -/
theorem loopVoice_writes (g : Globals F) {k dstSize n : Nat}
    (hk : g.bytes * g.channels = k) (hpos : 0 < k) (hn : k * n < dstSize) :
    ((k * n : Nat) : Int) + 3 ∈ mixSamplesWrites g dstSize [loopVoice] := by
  subst hk
  rw [← List.length_replicate (n := dstSize) (a := (0 : UInt8))] at hn
  apply List.mem_append_right
  show _ ∈ (mixSample g (List.replicate dstSize 0) loopVoice).writes ++ []
  rw [List.append_nil]
  have hsize : (0 : Int) < 1 * 1 := by decide
  exact mixSample_writes_of_loop g (s := loopVoice) hsize Int.one_ne_zero
    Int.one_ne_zero hpos hn

end Model

theorem int32_of_lt {n : Nat} (h : n < 2 ^ 31) : int32 n = n := by
  apply Int.bmod_eq_of_le
  · omega
  · omega

theorem int32_mul (m n : Int) : int32 (int32 m * n) = int32 (m * n) :=
  Int.bmod_mul_bmod

/-- If the product fits an `int`, the buffer has the bytes of thirty
milliseconds, rounded down. -/
theorem bufSize_eq {F : Type} {sampleRate bits channels : Nat} (speed : F)
    (hfits : sampleRate * channels * (bits >>> 3) * 30 < 2 ^ 31) :
    bufSize sampleRate (startAudio bits channels speed) =
      (sampleRate * channels * (bits >>> 3) * 30 / 1000 : Nat) := by
  have hproduct : int32 (int32 (int32 (sampleRate * channels) *
      (bits >>> 3 : Nat)) * 30) =
      (sampleRate * channels * (bits >>> 3) * 30 : Nat) := by
    rw [int32_mul, Int.mul_assoc, int32_mul, ← Int.mul_assoc,
      ← int32_of_lt hfits]
    push_cast
    rfl
  show (int32 (int32 (int32 (sampleRate * channels) *
    (bits >>> 3 : Nat)) * 30)).tdiv 1000 = _
  rw [hproduct]
  rfl

section

variable (F : Type) [Add F] [Sub F] [Mul F] [Div F] [IntCast F] [LT F] [LE F]
  [DecidableLT F] [DecidableLE F] [Double F]

/-- The callback of a device stays inside its buffers, whatever plays, exactly
if the buffer is empty, or the frames of the device have at least four bytes
and the buffer ends with a whole frame or with four bytes of one. -/
theorem staysInside_iff (sampleRate bits channels : Nat)
    (hfits : sampleRate * channels * (bits >>> 3) * 30 < 2 ^ 31) :
    StaysInside F sampleRate bits channels ↔
      LastPassFits ((bits >>> 3) * channels)
        (sampleRate * channels * (bits >>> 3) * 30 / 1000) := by
  rcases Nat.eq_zero_or_pos ((bits >>> 3) * channels) with hk | hk
  · -- frames of no bytes make an empty buffer
    have hzero : sampleRate * channels * (bits >>> 3) = 0 := by
      rw [Nat.mul_assoc, Nat.mul_comm channels, hk, Nat.mul_zero]
    refine iff_of_true ?_ (.inl (by rw [hzero]))
    intro speed list p hp
    rw [bufSize_eq speed hfits, hzero] at hp
    rcases List.mem_append.1 hp with hset | hvoice
    · cases hset
    · obtain ⟨n, hn, -⟩ := mixListWrites_mem _ _ _ hvoice
      exact absurd hn (Nat.not_lt_zero _)
  · rw [← passes_fit_iff hk]
    constructor
    · intro h n hn
      have hwrite := h ((0 : Int) : F) [loopVoice] (((bits >>> 3) * channels * n
        : Nat) + 3)
      rw [bufSize_eq _ hfits] at hwrite
      have hlt := (hwrite (loopVoice_writes _ rfl hk hn)).2
      omega
    · intro hpasses speed list p hp
      rw [bufSize_eq speed hfits] at hp ⊢
      rcases List.mem_append.1 hp with hset | hvoice
      · obtain ⟨i, hi, rfl⟩ := List.mem_map.1 hset
        have := List.mem_range.1 hi
        omega
      · obtain ⟨n, hn, hlow, hhigh⟩ := mixListWrites_mem _ _ _ hvoice
        rw [List.length_replicate, Nat.zero_add] at hn
        rw [Nat.zero_add] at hlow hhigh
        have := hpasses n hn
        have hk' : (startAudio bits channels speed).bytes *
          (startAudio bits channels speed).channels =
            (bits >>> 3) * channels := rfl
        rw [hk'] at hlow hhigh
        omega

end

/-- In the format of a compact disc the callback stays inside; with frames of
two bytes it does not. -/
theorem staysInside_compactDisc :
    StaysInside ℚ 44100 16 2 ∧ ¬ StaysInside ℚ 44100 16 1 := by
  refine ⟨(staysInside_iff ℚ 44100 16 2 (by decide)).2
    (.inr ⟨by decide, .inl (by decide)⟩), fun hinside => ?_⟩
  rcases (staysInside_iff ℚ 44100 16 1 (by decide)).1 hinside with
    hempty | ⟨hfour, -⟩
  · exact absurd hempty (by decide)
  · exact absurd hfour (by decide)

/-- A quarter of the rate of a compact disc: the buffer has 1323 bytes, and
the last pass starts at the last three of them. -/
theorem not_staysInside :
    ¬ ∀ sampleRate bits channels : Nat, 0 < sampleRate → 0 < bits →
      0 < channels → sampleRate * channels * (bits >>> 3) * 30 < 2 ^ 31 →
      StaysInside ℚ sampleRate bits channels := by
  intro h
  have hwrite := h 11025 16 2 (by decide) (by decide) (by decide) (by decide)
    0 [loopVoice] ((4 * 330 : Nat) + 3)
  rw [bufSize_eq (0 : ℚ) (by decide)] at hwrite
  have hmem := loopVoice_writes (startAudio 16 2 (0 : ℚ)) (k := 4) (n := 330)
    rfl (by decide) (show 4 * 330 < 1323 by decide)
  exact absurd (hwrite hmem).2 (by decide)

end Bucktoot.Ports.DeviceBuffer
