import Bucktoot.Ports.MixerOutput

/-!
# Loop regions that do not start with the data

`check_loop` looks at a position in front of the loop region as one that has
left it backwards, and puts it on the last frame of the region.  A voice that
starts at its first frame therefore never plays what lies in front of the
region: `playsLoop` says what it plays instead.  Only a region that begins with
the data is heard from the first frame on.
-/

namespace Bucktoot.Ports.Mixer

/-! ## Frames as positions -/

/-- Stepping through the residues of `m`. -/
theorem add_one_emod {m : Int} (hm : 0 < m) (x : Int) :
    (x + 1) % m = if x % m + 1 < m then x % m + 1 else 0 := by
  have h0 := Int.emod_nonneg x hm.ne'
  have hlt := Int.emod_lt_of_pos x hm
  rw [← Int.emod_add_emod]
  split
  · exact Int.emod_eq_of_lt (by omega) (by assumption)
  · rw [show x % m + 1 = m by omega, Int.emod_self]

/-- A sixteen-bit voice of `frames` frames that stands on its first one and
loops over the frames from `a` up to `b`. -/
structure LoopVoice (s : WaveSample ℚ) (frames a b : Int) : Prop where
  play : s.play ≠ 0
  bytes : s.bytes = 2
  channels : 1 ≤ s.channels
  dataLen : s.dataLen = 2 * s.channels * frames
  doLoop : s.doLoop ≠ 0
  loopStart : s.loopStart = 2 * s.channels * a
  loopEnd : s.loopEnd = 2 * s.channels * b
  start_nonneg : 0 ≤ a
  start_lt : a < b
  stop_le : b ≤ frames
  currentFrame : s.currentFrame = 0

/-- `wrapped` on whole frames. -/
def wrapFrame (a b p : Int) : Int :=
  if p ≥ b then a else if p < a then b - 1 else p

/-- The frame of the data that is heard as frame `k` of the output. -/
def loopFrame (a b : Int) : Nat → Int
  | 0 => if a = 0 then 0 else b - 1
  | k + 1 => if a = 0 then (k + 1 : Int) % b else a + (k : Int) % (b - a)

theorem loopFrame_of_start {a : Int} (b : Int) (ha : a = 0) (k : Nat) :
    loopFrame a b k = (k : Int) % b := by
  cases k with
  | zero => rw [loopFrame, if_pos ha, Int.natCast_zero, Int.zero_emod]
  | succ k =>
      rw [loopFrame, if_pos ha]
      push_cast
      rfl

section

variable {s : WaveSample ℚ} {frames a b : Int}

theorem LoopVoice.stopByte_eq (h : LoopVoice s frames a b) :
    stopByte s = 2 * s.channels * b := by
  have hne : s.loopEnd ≠ 0 := by
    rw [h.loopEnd]
    have := Int.mul_pos (show 0 < 2 * s.channels by have := h.channels; omega)
      (show 0 < b by have := h.start_nonneg; have := h.start_lt; omega)
    omega
  rw [stopByte, if_pos hne, h.loopEnd]

theorem LoopVoice.sound (h : LoopVoice s frames a b) : Sound s := by
  have hsize : 0 < 2 * s.channels := by
    have := h.channels
    omega
  have hb : 0 < b := by
    have := h.start_nonneg
    have := h.start_lt
    omega
  refine ⟨?_, ?_, fun _ => ⟨?_, ?_, ?_⟩⟩
  · rw [frameSize, h.bytes]
    exact hsize
  · rw [h.dataLen]
    exact Int.mul_pos hsize (hb.trans_le h.stop_le)
  · rw [h.loopStart]
    exact Int.mul_nonneg hsize.le h.start_nonneg
  · rw [h.loopStart, h.stopByte_eq]
    exact Int.mul_lt_mul_of_pos_left h.start_lt hsize
  · rw [h.stopByte_eq, h.dataLen]
    exact Int.mul_le_mul_of_nonneg_left h.stop_le hsize.le

theorem LoopVoice.wrapped_eq (h : LoopVoice s frames a b) (p : Int) :
    wrapped s (p : ℚ) = (wrapFrame a b p : ℚ) := by
  have hsize : (2 * s.channels : ℚ) ≠ 0 := by
    have := h.channels
    exact_mod_cast (show 2 * s.channels ≠ 0 by omega)
  have hstart : (s.loopStart : ℚ) / (2 * s.channels) = a := by
    rw [h.loopStart]
    push_cast
    exact mul_div_cancel_left₀ _ hsize
  have hstop : (stopByte s : ℚ) / (2 * s.channels) = b := by
    rw [h.stopByte_eq]
    push_cast
    exact mul_div_cancel_left₀ _ hsize
  have hback : max ((b : ℚ) - 1) 0 = ((b - 1 : Int) : ℚ) := by
    have := h.start_nonneg
    have := h.start_lt
    push_cast
    apply max_eq_left
    exact_mod_cast (show 0 ≤ b - 1 by omega)
  rw [wrapped, hstart, hstop, hback, wrapFrame]
  by_cases hge : p ≥ b
  · rw [if_pos hge, if_pos (by exact_mod_cast hge)]
  · rw [if_neg hge, if_neg (by exact_mod_cast hge)]
    by_cases hlt : p < a
    · rw [if_pos hlt, if_pos (by exact_mod_cast hlt)]
    · rw [if_neg hlt, if_neg (by exact_mod_cast hlt)]

theorem wrapFrame_loopFrame (hab : a < b) (k : Nat) :
    wrapFrame a b (loopFrame a b k + 1) = loopFrame a b (k + 1) := by
  by_cases hzero : a = 0
  · -- the region begins with the data: residues of its length
    have hnonneg := Int.emod_nonneg (k : Int) (show b ≠ 0 by omega)
    rw [loopFrame, if_pos hzero, loopFrame_of_start b hzero, wrapFrame, hzero,
      add_one_emod (by omega)]
    split <;> split <;> omega
  · cases k with
    | zero =>
        rw [loopFrame, loopFrame, if_neg hzero, if_neg hzero, wrapFrame,
          if_pos (by omega), Int.natCast_zero, Int.zero_emod, Int.add_zero]
    | succ k =>
        have hnonneg := Int.emod_nonneg (k : Int) (show b - a ≠ 0 by omega)
        rw [loopFrame, loopFrame, if_neg hzero, if_neg hzero, wrapFrame]
        push_cast
        rw [add_one_emod (by omega)]
        split <;> split <;> omega

/-- The positions of the voice at normal speed. -/
theorem LoopVoice.loopPosition_eq (h : LoopVoice s frames a b) (k : Nat) :
    loopPosition (stereo 1) s k = (loopFrame a b k : ℚ) := by
  have ha := h.start_nonneg
  have hab := h.start_lt
  induction k with
  | zero =>
      rw [loopPosition, h.currentFrame, ← Int.cast_zero, h.wrapped_eq]
      congr 1
      rw [wrapFrame, loopFrame, if_neg (by omega)]
      split <;> split <;> omega
  | succ k ih =>
      rw [loopPosition, ih, ← wrapFrame_loopFrame hab, ← h.wrapped_eq]
      push_cast
      rfl

/-- What is heard, frame by frame. -/
theorem LoopVoice.frameAt_eq (h : LoopVoice s frames a b) (ns : List Nat)
    {k : Nat} (hk : k < ns.sum) :
    frameAt (mixCalls (stereo 1) ns s).1 k = dataFrame s (loopFrame a b k) := by
  have hframes := (h.sound.mixCalls_loop h.bytes h.channels
    (g := stereo 1) rfl h.play h.doLoop ns).2 k hk
  rw [hframes.2.2, h.loopPosition_eq, Int.floor_intCast]

end

/-! ## Lead-in and loop -/

/-- The data up to the end of the loop region, and then the region again and
again. -/
def PlaysLeadIn (s : WaveSample ℚ) (a b : Int) (ns : List Nat) : Prop :=
  ∀ k < ns.sum, frameAt (mixCalls (stereo 1) ns s).1 k =
    dataFrame s (if (k : Int) < b then k else a + (k - b) % (b - a))

/-- **What a loop region sounds like.**  A region that begins with the data is
played from the first frame on.  For any other, the first frame that is heard
is the last one of the region, and then the region is played from its
beginning. -/
theorem playsLoop (s : WaveSample ℚ) (frames a b : Int)
    (h : LoopVoice s frames a b) (ns : List Nat) :
    (a = 0 → PlaysLeadIn s a b ns) ∧
    (0 < a → ∀ k < ns.sum, frameAt (mixCalls (stereo 1) ns s).1 k =
      dataFrame s (if k = 0 then b - 1 else a + (k - 1 : Int) % (b - a))) := by
  constructor
  · intro hzero k hk
    rw [h.frameAt_eq ns hk]
    congr 1
    rw [loopFrame_of_start b hzero]
    split
    · exact Int.emod_eq_of_lt (by omega) (by assumption)
    · rw [hzero, Int.sub_zero, Int.zero_add, Int.sub_emod_right]
  · intro hpos k hk
    rw [h.frameAt_eq ns hk]
    congr 1
    cases k with
    | zero => rw [loopFrame, if_neg hpos.ne', if_pos rfl]
    | succ k =>
        rw [loopFrame, if_neg hpos.ne', if_neg (Nat.succ_ne_zero k)]
        push_cast
        rw [Int.add_sub_cancel]

/-- Two frames of stereo data with a loop over the second one. -/
def secondFrame : WaveSample ℚ :=
  { data := [1, 0, 2, 0, 3, 0, 4, 0], dataLen := 8, sampleRate := 44100
    channels := 2, bytes := 2, doLoop := 1, loopStart := 4, loopEnd := 8
    play := 1, currentFrame := 0, speed := 1 }

theorem secondFrame_loopVoice : LoopVoice secondFrame 2 1 2 := by
  refine ⟨?_, rfl, ?_, rfl, ?_, rfl, rfl, ?_, ?_, ?_, rfl⟩ <;> decide

/-- `playsLoop` at this voice, through a buffer of one frame and one of two. -/
theorem secondFrame_playsLoop :
    (0 : Int) < 1 ∧
      ∀ k < 3, frameAt (mixCalls (stereo 1) [1, 2] secondFrame).1 k =
        dataFrame secondFrame
          (if k = 0 then 2 - 1 else 1 + (k - 1 : Int) % (2 - 1)) :=
  ⟨by decide, (playsLoop secondFrame 2 1 2 secondFrame_loopVoice [1, 2]).2
    (by decide)⟩

/-- Its first frame is never heard. -/
theorem not_playsLeadIn :
    ¬ ∀ (s : WaveSample ℚ) (frames a b : Int) (ns : List Nat),
      LoopVoice s frames a b → PlaysLeadIn s a b ns := by
  intro h
  have hfirst := h secondFrame 2 1 2 [1] secondFrame_loopVoice 0 (by decide)
  revert hfirst
  decide +kernel

end Bucktoot.Ports.Mixer
