import Mathlib.Data.Rat.Floor
import Mathlib.Tactic.FieldSimp
import Mathlib.Tactic.Linarith
import Bucktoot.Ports.MixerTrack

/-!
# The mixer on exact positions

With rationals for `double` the position of a voice can be computed.  For a
`Sound` voice (at least one byte of data and, if it loops, loop points inside
the data in order) this module shows that

* `check_loop` leaves a playing voice inside its data, and doing it twice is
  doing it once;
* the `fmod` behind it does nothing, so a pass moves the voice by `g_speed`
  and wraps it (`stepFrame_eq`);
* the truncation and the realignment together give the whole frame under the
  position (`framePos_eq`).
-/

namespace Bucktoot.Ports.Mixer

/-! ## The rationals as `double` -/

/-- Conversion to `int` drops the fraction, `fmod` what is left of the
division. -/
instance : Double ℚ where
  toInt q := q.num.tdiv q.den
  fmod x y := x - y * ((x / y).num.tdiv (x / y).den : Int)

theorem toInt_of_nonneg {q : ℚ} (h : 0 ≤ q) : Double.toInt q = ⌊q⌋ := by
  have hnum : 0 ≤ q.num := Rat.num_nonneg.2 h
  show q.num.tdiv q.den = ⌊q⌋
  rw [Int.tdiv_eq_ediv_of_nonneg hnum, Rat.floor_def']

theorem fmod_of_lt {x y : ℚ} (h0 : 0 ≤ x) (h : x < y) : Double.fmod x y = x := by
  have hy : 0 < y := h0.trans_lt h
  have hfloor : ⌊x / y⌋ = 0 := by
    rw [Int.floor_eq_zero_iff, Set.mem_Ico]
    exact ⟨div_nonneg h0 hy.le, (div_lt_one hy).2 h⟩
  have hto := toInt_of_nonneg (div_nonneg h0 hy.le)
  show x - y * ((Double.toInt (x / y) : Int) : ℚ) = x
  rw [hto, hfloor]
  simp

/-- Realigned to a frame, the truncated byte offset is that of the whole frame
under the position. -/
theorem framePos_eq (s : WaveSample ℚ) {size : Int} (hsize : 0 < size)
    (h0 : 0 ≤ s.currentFrame) :
    framePos s size (size : ℚ) = size * ⌊s.currentFrame⌋ := by
  have hq : (0 : ℚ) < size := by exact_mod_cast hsize
  have hpos : 0 ≤ s.currentFrame * (size : ℚ) := mul_nonneg h0 hq.le
  have hfloor : 0 ≤ ⌊s.currentFrame * (size : ℚ)⌋ := Int.floor_nonneg.2 hpos
  have hdiv : ⌊s.currentFrame * (size : ℚ)⌋ / size = ⌊s.currentFrame⌋ := by
    lift size to Nat using hsize.le
    rw [← Int.floor_div_natCast, Int.cast_natCast, mul_div_cancel_right₀]
    exact_mod_cast hq.ne'
  have hmod := Int.emod_add_mul_ediv ⌊s.currentFrame * (size : ℚ)⌋ size
  unfold framePos
  dsimp only
  rw [toInt_of_nonneg hpos, Int.tmod_eq_emod_of_nonneg hfloor]
  rw [hdiv] at hmod
  split <;> omega

/-! ## Voices whose data and loop points are in order -/

/-- The byte offset at which a looping voice stops. -/
def stopByte {F : Type} (s : WaveSample F) : Int :=
  if s.loopEnd ≠ 0 then s.loopEnd else s.dataLen

/-- The frame size of a voice. -/
def frameSize {F : Type} (s : WaveSample F) : Int := s.bytes * s.channels

/-- The data of a voice holds at least one byte and its loop, if it has one,
lies inside. -/
structure Sound {F : Type} (s : WaveSample F) : Prop where
  size : 0 < frameSize s
  data : 0 < s.dataLen
  loop : s.doLoop ≠ 0 →
    0 ≤ s.loopStart ∧ s.loopStart < stopByte s ∧ stopByte s ≤ s.dataLen

/-- The length of the data in frames, the `frame_count` of the source. -/
def frameCount (s : WaveSample ℚ) : ℚ := (s.dataLen : ℚ) / (frameSize s : ℚ)

/-- The position lies in the data. -/
def InData (s : WaveSample ℚ) : Prop :=
  0 ≤ s.currentFrame ∧ s.currentFrame < frameCount s

/-- The test of `check_loop` on a one-shot voice. -/
theorem outside_iff {s : WaveSample ℚ} :
    (s.currentFrame ≥ (s.dataLen : ℚ) / (frameSize s : ℚ) ∨
      s.currentFrame < ((0 : Int) : ℚ)) ↔ ¬ InData s := by
  rw [InData, frameCount, Int.cast_zero, not_and_or, not_le, not_lt]
  exact or_comm

theorem Sound.continues {s t : WaveSample ℚ} (h : Sound s)
    (hc : Continues s t) : Sound t := by
  rw [hc.fixed]
  exact ⟨h.size, h.data, h.loop⟩

theorem Sound.size_pos {s : WaveSample ℚ} (h : Sound s) :
    (0 : ℚ) < (frameSize s : ℚ) := by
  exact_mod_cast h.size

theorem Sound.frameCount_pos {s : WaveSample ℚ} (h : Sound s) :
    0 < frameCount s :=
  div_pos (by exact_mod_cast h.data) h.size_pos

theorem loopTo_eq (s : WaveSample ℚ) :
    loopTo s (frameSize s : ℚ) = (stopByte s : ℚ) / (frameSize s : ℚ) := by
  unfold loopTo stopByte
  split <;> rfl

/-- The loop points in frames are in order. -/
theorem Sound.loop_points {s : WaveSample ℚ} (h : Sound s)
    (hloop : s.doLoop ≠ 0) :
    0 ≤ loopFrom s (frameSize s : ℚ) ∧
      loopFrom s (frameSize s : ℚ) < loopTo s (frameSize s : ℚ) ∧
      loopTo s (frameSize s : ℚ) ≤ frameCount s := by
  obtain ⟨h0, hlt, hle⟩ := h.loop hloop
  have hsize := h.size_pos
  rw [loopTo_eq]
  unfold loopFrom frameCount
  refine ⟨div_nonneg (by exact_mod_cast h0) hsize.le, ?_, ?_⟩
  · exact (div_lt_div_iff_of_pos_right hsize).2 (by exact_mod_cast hlt)
  · exact (div_le_div_iff_of_pos_right hsize).2 (by exact_mod_cast hle)

/-! ## Wrapping -/

theorem wrap_eq (start stop p : ℚ) :
    wrap start stop p =
      if p ≥ stop then start
      else if p < start then max (stop - 1) 0
      else p := by
  unfold wrap
  simp only [Int.cast_one, Int.cast_zero]
  split
  · rfl
  · split
    · split
      · rw [max_eq_right (by linarith)]
      · rw [max_eq_left (by linarith)]
    · rfl

/-- A wrapped position lies in front of the stop. -/
theorem wrap_mem {start stop : ℚ} (h0 : 0 ≤ start) (hlt : start < stop)
    (p : ℚ) : 0 ≤ wrap start stop p ∧ wrap start stop p < stop := by
  rw [wrap_eq]
  split
  · exact ⟨h0, hlt⟩
  · split
    · exact ⟨le_max_right _ _, max_lt (by linarith) (h0.trans_lt hlt)⟩
    · exact ⟨by linarith, by linarith⟩

/-- Wrapping twice is wrapping once. -/
theorem wrap_wrap {start stop : ℚ} (h0 : 0 ≤ start) (hlt : start < stop)
    (p : ℚ) : wrap start stop (wrap start stop p) = wrap start stop p := by
  have hmem := (wrap_mem h0 hlt p).2
  rw [wrap_eq start stop (wrap start stop p), if_neg (not_le.2 hmem)]
  split
  · -- still in front of the start, so the last wrap already went to the end
    rename_i hback
    rw [wrap_eq] at hback ⊢
    split
    · rename_i hp
      rw [if_pos hp] at hback
      exact absurd hback (lt_irrefl _)
    · rename_i hp
      rw [if_neg hp] at hback
      split
      · rfl
      · rename_i hp'
        rw [if_neg hp'] at hback
        exact absurd hback hp'
  · rfl

/-! ## One frame of output -/

/-- A voice that `check_loop` lets play is inside its data. -/
theorem Sound.checkLoop_inData {s : WaveSample ℚ} (h : Sound s)
    (hplay : (checkLoop s (frameSize s : ℚ)).play ≠ 0) :
    InData (checkLoop s (frameSize s : ℚ)) := by
  by_cases hloop : s.doLoop = 0
  · rw [checkLoop_of_oneShot hloop] at hplay ⊢
    by_cases hin : InData s
    · exact hin
    · exact absurd (if_pos (outside_iff.2 hin)) hplay
  · obtain ⟨h0, hlt, hle⟩ := h.loop_points hloop
    have hmem := wrap_mem h0 hlt s.currentFrame
    rw [checkLoop_of_loop hloop]
    exact ⟨hmem.1, hmem.2.trans_le hle⟩

/-- **The two checks agree.**  Checking a voice in front of a buffer changes
nothing if it was checked behind the last frame. -/
theorem Sound.checkLoop_checkLoop {s : WaveSample ℚ} (h : Sound s) :
    checkLoop (checkLoop s (frameSize s : ℚ)) (frameSize s : ℚ) =
      checkLoop s (frameSize s : ℚ) := by
  by_cases hloop : s.doLoop = 0
  · rw [checkLoop_of_oneShot hloop]
    rw [checkLoop_of_oneShot (by exact hloop)]
    dsimp only
    split <;> rfl
  · obtain ⟨h0, hlt, -⟩ := h.loop_points hloop
    rw [checkLoop_of_loop hloop]
    rw [checkLoop_of_loop (by exact hloop)]
    exact congrArg
      (fun p : ℚ => ({ s with currentFrame := p } : WaveSample ℚ))
      (wrap_wrap h0 hlt s.currentFrame)

/-- The voice moved by `g_speed`, before it is checked. -/
def moved (g : Globals ℚ) (s : WaveSample ℚ) : WaveSample ℚ :=
  { s with currentFrame := s.currentFrame + g.speed }

/-- The `fmod` at the end of a pass does nothing. -/
theorem Sound.stepFrame_eq {s : WaveSample ℚ} (h : Sound s) (g : Globals ℚ) :
    stepFrame g (frameSize s : ℚ) (frameCount s) s =
      checkLoop (moved g s) (frameSize s : ℚ) := by
  have hsound : Sound (moved g s) := ⟨h.size, h.data, h.loop⟩
  have hcount : frameCount (checkLoop (moved g s) (frameSize s : ℚ)) =
      frameCount s := by
    rw [(checkLoop_continues (moved g s) (frameSize s : ℚ)).fixed]
    rfl
  unfold stepFrame
  dsimp only
  split
  · rfl
  · rename_i hplay
    have hin := hsound.checkLoop_inData hplay
    change InData (checkLoop (moved g s) (frameSize s : ℚ)) at hin
    have hmod := fmod_of_lt hin.1 hin.2
    rw [hcount] at hmod
    show ({ checkLoop (moved g s) (frameSize s : ℚ) with
        currentFrame := Double.fmod
          (checkLoop (moved g s) (frameSize s : ℚ)).currentFrame
          (frameCount s) } : WaveSample ℚ) = _
    rw [hmod]

/-! ## A whole call -/

/-- The voice in front of a buffer. -/
def entry (s : WaveSample ℚ) : WaveSample ℚ := checkLoop s (frameSize s : ℚ)

/-- The voice after `k` more frames of output. -/
def after (g : Globals ℚ) (k : Nat) (s : WaveSample ℚ) : WaveSample ℚ :=
  (settle g (frameSize s : ℚ) (frameCount s))^[k] s

theorem entry_continues (s : WaveSample ℚ) : Continues s (entry s) :=
  checkLoop_continues s _

theorem after_continues (g : Globals ℚ) (k : Nat) (s : WaveSample ℚ) :
    Continues s (after g k s) :=
  settle_iterate_continues g _ _ k s

theorem Continues.frameSize_eq {s t : WaveSample ℚ} (h : Continues s t) :
    frameSize t = frameSize s := by
  rw [h.fixed]
  rfl

theorem Continues.frameCount_eq {s t : WaveSample ℚ} (h : Continues s t) :
    frameCount t = frameCount s := by
  rw [h.fixed]
  rfl

/-- The check of a one-shot voice, for a position inside of its data. -/
theorem entry_of_inside {s : WaveSample ℚ} (hloop : s.doLoop = 0)
    (h : InData s) : entry s = s := by
  rw [entry, checkLoop_of_oneShot hloop, if_neg (fun hout => outside_iff.1 hout h)]

/-- The check of a one-shot voice, for a position outside of its data. -/
theorem entry_of_outside {s : WaveSample ℚ} (hloop : s.doLoop = 0)
    (h : ¬ InData s) : (entry s).play = 0 := by
  rw [entry, checkLoop_of_oneShot hloop]
  exact if_pos (outside_iff.2 h)

/-- A voice that is checked is left alone by another check. -/
def Checked (s : WaveSample ℚ) : Prop := entry s = s

theorem Sound.entry_checked {s : WaveSample ℚ} (h : Sound s) :
    Checked (entry s) := by
  unfold Checked
  have hsize := (entry_continues s).frameSize_eq
  rw [entry, hsize]
  exact h.checkLoop_checkLoop

theorem Sound.inData {s : WaveSample ℚ} (h : Sound s) (hs : Checked s)
    (hplay : s.play ≠ 0) : InData s := by
  rw [← hs] at hplay ⊢
  exact h.checkLoop_inData hplay

theorem after_succ (g : Globals ℚ) (k : Nat) (s : WaveSample ℚ) :
    after g (k + 1) s =
      settle g (frameSize s : ℚ) (frameCount s) (after g k s) :=
  Function.iterate_succ_apply' _ _ _

theorem after_add (g : Globals ℚ) (n k : Nat) (s : WaveSample ℚ) :
    after g (n + k) s = after g k (after g n s) := by
  have hc := after_continues g n s
  rw [after, after, hc.frameSize_eq, hc.frameCount_eq, Nat.add_comm,
    Function.iterate_add_apply]
  rfl

/-- A playing voice is moved by `g_speed` and checked. -/
theorem Sound.after_succ_of_play {s : WaveSample ℚ} (h : Sound s)
    (g : Globals ℚ) (k : Nat) (hplay : (after g k s).play ≠ 0) :
    after g (k + 1) s = entry (moved g (after g k s)) := by
  have hc := after_continues g k s
  rw [after_succ, settle, if_neg hplay, ← hc.frameSize_eq,
    ← hc.frameCount_eq, (h.continues hc).stepFrame_eq]
  rfl

theorem after_succ_of_ended (g : Globals ℚ) (k : Nat) {s : WaveSample ℚ}
    (hplay : (after g k s).play = 0) : after g (k + 1) s = after g k s := by
  rw [after_succ, settle, if_pos hplay]

/-- Every frame of output leaves the voice checked. -/
theorem Sound.after_checked {s : WaveSample ℚ} (h : Sound s) (hs : Checked s)
    (g : Globals ℚ) (k : Nat) : Checked (after g k s) := by
  induction k with
  | zero => exact hs
  | succ k ih =>
      by_cases hplay : (after g k s).play = 0
      · rw [after_succ_of_ended g k hplay]
        exact ih
      · have hc := h.continues (after_continues g k s)
        have hmoved : Sound (moved g (after g k s)) :=
          ⟨hc.size, hc.data, hc.loop⟩
        rw [h.after_succ_of_play g k hplay]
        exact hmoved.entry_checked

/-- In front of the next buffer nothing is left to check. -/
theorem Sound.entry_after {s : WaveSample ℚ} (h : Sound s) (g : Globals ℚ)
    (k : Nat) : entry (after g k (entry s)) = after g k (entry s) :=
  (h.continues (entry_continues s)).after_checked h.entry_checked g k

/-- A voice that still plays is inside of its data. -/
theorem Sound.after_inData {s : WaveSample ℚ} (h : Sound s) (g : Globals ℚ)
    (k : Nat) (hplay : (after g k (entry s)).play ≠ 0) :
    InData (after g k (entry s)) := by
  have hc := (entry_continues s).trans (after_continues g k (entry s))
  exact (h.continues hc).inData (h.entry_after g k) hplay

theorem Sound.voiceRun_eq {s : WaveSample ℚ} (h : Sound s) (g : Globals ℚ)
    (n : Nat) :
    voiceRun g n s =
      if (entry s).play = 0 then ([], entry s)
      else track g (frameSize s) (frameSize s : ℚ) (frameCount s) n
        (entry s) := by
  unfold voiceRun
  dsimp only
  rw [if_neg (show ¬ s.bytes * s.channels ≤ 0 from not_le.2 h.size),
    clampCurrentFrame_eq_checkLoop]
  rfl

/-- The voice that a call on `n` frames leaves behind. -/
theorem Sound.voiceRun_voice {s : WaveSample ℚ} (h : Sound s)
    (g : Globals ℚ) (n : Nat) :
    (voiceRun g n s).2 = after g n (entry s) := by
  have hc := entry_continues s
  rw [h.voiceRun_eq, after, hc.frameSize_eq, hc.frameCount_eq]
  split
  · rename_i hend
    rw [settle_iterate_of_ended _ _ _ _ hend]
  · rename_i hplay
    exact track_voice g _ _ _ n hplay

theorem Sound.mixSample_voice {s : WaveSample ℚ} (h : Sound s)
    {g : Globals ℚ} (hg : g.bytes * g.channels = 4) (n : Nat) :
    (mixSample g (List.replicate (4 * n) 0) s).sample =
      after g n (entry s) := by
  rw [(mixSample_mixed hg (n := n) (by simp) s).sample, h.voiceRun_voice]

/-- The frames that a call on `n` frames reads. -/
theorem Sound.voiceRun_frame {s : WaveSample ℚ} (h : Sound s)
    (g : Globals ℚ) (n k : Nat) :
    (voiceRun g n s).1[k]? =
      if k < n ∧ (after g k (entry s)).play ≠ 0 then
        some (frameSize s * ⌊(after g k (entry s)).currentFrame⌋)
      else none := by
  have hc := entry_continues s
  have hsound := h.continues hc
  rw [h.voiceRun_eq]
  split
  · rename_i hend
    have hstay : after g k (entry s) = entry s :=
      settle_iterate_of_ended _ _ _ _ hend
    simp [hstay, hend]
  · rename_i hplay
    rw [track_frame g _ _ _ n k hplay, ← hc.frameSize_eq, ← hc.frameCount_eq]
    show (if k < n ∧ (after g k (entry s)).play ≠ 0 then _ else _) = _
    by_cases hk : k < n ∧ (after g k (entry s)).play ≠ 0
    · have hin := h.after_inData g k hk.2
      rw [if_pos hk, if_pos hk]
      exact congrArg some (framePos_eq (after g k (entry s)) hsound.size hin.1)
    · rw [if_neg hk, if_neg hk]

/-- Every frame that is read begins inside the data. -/
theorem Sound.voiceRun_mem {s : WaveSample ℚ} (h : Sound s) (g : Globals ℚ)
    {n : Nat} {pos : Int} (hpos : pos ∈ (voiceRun g n s).1) :
    ∃ j : Int, 0 ≤ j ∧ frameSize s * j < s.dataLen ∧ pos = frameSize s * j := by
  obtain ⟨k, hk⟩ := List.mem_iff_getElem?.1 hpos
  have hc := (entry_continues s).trans (after_continues g k (entry s))
  rw [h.voiceRun_frame] at hk
  split at hk
  · rename_i hplay
    obtain ⟨h0, hlt⟩ := h.after_inData g k hplay.2
    rw [hc.frameCount_eq, frameCount, lt_div_iff₀ h.size_pos] at hlt
    refine ⟨⌊(after g k (entry s)).currentFrame⌋, Int.floor_nonneg.2 h0, ?_,
      (Option.some.inj hk).symm⟩
    have hfloor := Int.floor_le (after g k (entry s)).currentFrame
    have hmul := mul_le_mul_of_nonneg_left hfloor h.size_pos.le
    have hcast : ((frameSize s * ⌊(after g k (entry s)).currentFrame⌋ : Int) :
        ℚ) < (s.dataLen : ℚ) := by
      push_cast
      linarith
    exact_mod_cast hcast
  · cases hk

end Bucktoot.Ports.Mixer
