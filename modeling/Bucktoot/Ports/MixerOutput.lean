import Bucktoot.Ports.MixerExact

/-!
# The output of a voice is a function of its positions

A voice is heard through one buffer after another, and `mix_sample` checks the
position both in front of each buffer and behind each frame.  The positions
themselves know nothing of buffers: a looping voice moves by `g_speed` and is
wrapped, a one-shot voice moves along a line until it leaves its data.  The
main theorem says that the concatenated output is the data under these
positions, wherever the buffers are cut.
-/

namespace Bucktoot.Ports.Mixer

/-! ## Buffers, frames and positions -/

/-- Successive calls of `mix_sample` on zeroed buffers of so many frames: the
concatenated output and the voice afterwards. -/
def mixCalls (g : Globals ℚ) :
    List Nat → WaveSample ℚ → List UInt8 × WaveSample ℚ
  | [], s => ([], s)
  | n :: ns, s =>
      let m := mixSample g (List.replicate (4 * n) 0) s
      let rest := mixCalls g ns m.sample
      (m.dst ++ rest.1, rest.2)

/-- A frame of sixteen-bit stereo output. -/
def frameAt (mem : List UInt8) (k : Nat) : Int × Int :=
  (valueAt mem (2 * k), valueAt mem (2 * k + 1))

/-- The first channel of a frame of the data, and the second one if there is
one. -/
def dataFrame (s : WaveSample ℚ) (j : Int) : Int × Int :=
  (shortAt s.data (2 * s.channels * j),
    shortAt s.data (2 * s.channels * j + 2 * min 1 (s.channels - 1)))

/-- A position put back between the loop points. -/
def wrapped (s : WaveSample ℚ) (p : ℚ) : ℚ :=
  let start : ℚ := s.loopStart / (2 * s.channels)
  let stop : ℚ := stopByte s / (2 * s.channels)
  if p ≥ stop then start
  else if p < start then max (stop - 1) 0
  else p

/-- The positions of a looping voice. -/
def loopPosition (g : Globals ℚ) (s : WaveSample ℚ) : Nat → ℚ
  | 0 => wrapped s s.currentFrame
  | k + 1 => wrapped s (loopPosition g s k + g.speed)

/-- The positions of a one-shot voice. -/
def linePosition (g : Globals ℚ) (s : WaveSample ℚ) (k : Nat) : ℚ :=
  s.currentFrame + k * g.speed

/-- The voice, with `frames` frames of data, is heard through buffers of `ns`
frames as the data under its positions. -/
structure Renders (g : Globals ℚ) (s : WaveSample ℚ) (frames : Int)
    (ns : List Nat) : Prop where
  length : (mixCalls g ns s).1.length = 4 * ns.sum
  loop : s.doLoop ≠ 0 →
    (mixCalls g ns s).2.play ≠ 0 ∧
    ∀ k < ns.sum,
      0 ≤ ⌊loopPosition g s k⌋ ∧ ⌊loopPosition g s k⌋ < frames ∧
      frameAt (mixCalls g ns s).1 k = dataFrame s ⌊loopPosition g s k⌋
  oneShot : s.doLoop = 0 →
    (∀ k < ns.sum,
      (∀ j ≤ k, 0 ≤ linePosition g s j ∧ linePosition g s j < frames) →
      frameAt (mixCalls g ns s).1 k = dataFrame s ⌊linePosition g s k⌋) ∧
    (∀ k < ns.sum,
      (∃ j ≤ k, ¬ (0 ≤ linePosition g s j ∧ linePosition g s j < frames)) →
      frameAt (mixCalls g ns s).1 k = (0, 0)) ∧
    (ns ≠ [] →
      ((mixCalls g ns s).2.play ≠ 0 ↔
        ∀ j ≤ ns.sum, 0 ≤ linePosition g s j ∧ linePosition g s j < frames))

/-! ## Frames of a concatenation -/

theorem valueAt_append_left {a : List UInt8} (b : List UInt8) {v : Nat}
    (h : 2 * v + 1 < a.length) : valueAt (a ++ b) v = valueAt a v := by
  have h' : 2 * v < a.length := by omega
  rw [valueAt, valueAt, shortAt_natCast, shortAt_natCast]
  simp [List.getElem?_append_left h, List.getElem?_append_left h']

theorem valueAt_append_right (a b : List UInt8) {n v : Nat}
    (h : a.length = 2 * n) (hv : n ≤ v) :
    valueAt (a ++ b) v = valueAt b (v - n) := by
  have h0 : a.length ≤ 2 * v := by omega
  have h1 : a.length ≤ 2 * v + 1 := by omega
  have e0 : 2 * v - a.length = 2 * (v - n) := by omega
  have e1 : 2 * v + 1 - a.length = 2 * (v - n) + 1 := by omega
  rw [valueAt, valueAt, shortAt_natCast, shortAt_natCast]
  simp [List.getElem?_append_right h0, List.getElem?_append_right h1, e0, e1]

theorem frameAt_append {a b : List UInt8} {n : Nat} (h : a.length = 4 * n)
    (k : Nat) :
    frameAt (a ++ b) k = if k < n then frameAt a k else frameAt b (k - n) := by
  have hlen : a.length = 2 * (2 * n) := by omega
  unfold frameAt
  split
  · rw [valueAt_append_left b (by omega), valueAt_append_left b (by omega)]
  · rw [valueAt_append_right a b hlen (by omega),
      valueAt_append_right a b hlen (by omega),
      show 2 * k - 2 * n = 2 * (k - n) by omega,
      show 2 * k + 1 - 2 * n = 2 * (k - n) + 1 by omega]

/-! ## One call, then all of them -/

/-- The frame a voice plays, silence once it has ended. -/
def heard (s : WaveSample ℚ) : Int × Int :=
  if s.play ≠ 0 then dataFrame s ⌊s.currentFrame⌋ else (0, 0)

theorem rightIndex_eq {s : WaveSample ℚ} (h : 1 ≤ s.channels) :
    rightIndex s = min 1 (s.channels - 1) := by
  unfold rightIndex
  split <;> omega

/-- The two values of a frame. -/
theorem voiceOut_frame (s : WaveSample ℚ) (frames : List Int) (k : Nat) :
    (voiceOut s frames (2 * k), voiceOut s frames (2 * k + 1)) =
      match frames[k]? with
      | none => (0, 0)
      | some pos =>
          (shortAt s.data pos, shortAt s.data (pos + 2 * rightIndex s)) := by
  have h0 : 2 * k / 2 = k := by omega
  have h1 : (2 * k + 1) / 2 = k := by omega
  unfold voiceOut
  rw [h0, h1]
  cases frames[k]? with
  | none => rfl
  | some pos =>
      dsimp only
      rw [if_pos (by omega), if_neg (by omega)]

/-- One call on a zeroed buffer. -/
theorem Sound.mixSample_frame {s : WaveSample ℚ} (h : Sound s)
    (hbytes : s.bytes = 2) (hchannels : 1 ≤ s.channels) {g : Globals ℚ}
    (hg : g.bytes * g.channels = 4) (n k : Nat) :
    frameAt (mixSample g (List.replicate (4 * n) 0) s).dst k =
      if k < n then heard (after g k (entry s)) else (0, 0) := by
  have hc := (entry_continues s).trans (after_continues g k (entry s))
  have hsize : frameSize s = 2 * s.channels := by rw [frameSize, hbytes]
  rw [frameAt, mixSample_silent hg, mixSample_silent hg, voiceOut_frame,
    h.voiceRun_frame]
  by_cases hk : k < n
  · rw [if_pos hk]
    unfold heard
    by_cases hplay : (after g k (entry s)).play ≠ 0
    · rw [if_pos ⟨hk, hplay⟩, if_pos hplay]
      dsimp only
      rw [rightIndex_eq hchannels, hsize]
      rw [hc.fixed]
      rfl
    · rw [if_neg (fun hc => hplay hc.2), if_neg hplay]
  · rw [if_neg (fun hc => hk hc.1), if_neg hk]

theorem mixCalls_length {g : Globals ℚ} (hg : g.bytes * g.channels = 4)
    (ns : List Nat) (s : WaveSample ℚ) :
    (mixCalls g ns s).1.length = 4 * ns.sum := by
  induction ns generalizing s with
  | nil => rfl
  | cons n ns ih =>
      rw [mixCalls, List.length_append, mixSample_length hg, ih, List.sum_cons]
      omega

/-- **Buffers do not matter.**  What is heard is what the voice plays frame by
frame, checked once in front of everything. -/
theorem Sound.mixCalls_frame {s : WaveSample ℚ} (h : Sound s)
    (hbytes : s.bytes = 2) (hchannels : 1 ≤ s.channels) {g : Globals ℚ}
    (hg : g.bytes * g.channels = 4) (ns : List Nat) {k : Nat}
    (hk : k < ns.sum) :
    frameAt (mixCalls g ns s).1 k = heard (after g k (entry s)) := by
  induction ns generalizing s k with
  | nil => simp at hk
  | cons n ns ih =>
      have hc := (entry_continues s).trans (after_continues g n (entry s))
      have hchecked := h.entry_after g n
      rw [mixCalls, frameAt_append (mixSample_length hg n s),
        h.mixSample_frame hbytes hchannels hg]
      by_cases hn : k < n
      · rw [if_pos hn, if_pos hn]
      · rw [if_neg hn, h.mixSample_voice hg]
        rw [List.sum_cons] at hk
        rw [ih (h.continues hc) (by rw [hc.fixed]; exact hbytes)
          (by rw [hc.fixed]; exact hchannels) (by omega), hchecked,
          ← after_add, Nat.add_sub_of_le (by omega)]

/-- The voice after any number of buffers. -/
theorem Sound.mixCalls_voice {s : WaveSample ℚ} (h : Sound s)
    {g : Globals ℚ} (hg : g.bytes * g.channels = 4) {ns : List Nat}
    (hns : ns ≠ []) : (mixCalls g ns s).2 = after g ns.sum (entry s) := by
  induction ns generalizing s with
  | nil => exact absurd rfl hns
  | cons n ns ih =>
      have hc := (entry_continues s).trans (after_continues g n (entry s))
      have hchecked := h.entry_after g n
      rw [mixCalls, h.mixSample_voice hg, List.sum_cons]
      by_cases hrest : ns = []
      · rw [hrest]
        rfl
      · rw [ih (h.continues hc) hrest, hchecked, after_add]

/-! ## The positions -/

theorem wrapped_eq {s : WaveSample ℚ} (hbytes : s.bytes = 2) (p : ℚ) :
    wrap (loopFrom s (frameSize s : ℚ)) (loopTo s (frameSize s : ℚ)) p =
      wrapped s p := by
  have hsize : (frameSize s : ℚ) = 2 * s.channels := by
    rw [frameSize, hbytes]
    push_cast
    rfl
  rw [loopTo_eq, wrap_eq, loopFrom, hsize]
  rfl

/-- A looping voice keeps playing along `loopPosition`. -/
theorem Sound.after_of_loop {s : WaveSample ℚ} (h : Sound s)
    (hbytes : s.bytes = 2) (hplay : s.play ≠ 0) (hloop : s.doLoop ≠ 0)
    (g : Globals ℚ) (k : Nat) :
    after g k (entry s) = { s with currentFrame := loopPosition g s k } := by
  have hentry : ∀ p : ℚ, entry { s with currentFrame := p } =
      { s with currentFrame := wrapped s p } := by
    intro p
    rw [entry, checkLoop_of_loop (by exact hloop)]
    exact congrArg
      (fun q : ℚ => ({ s with currentFrame := q } : WaveSample ℚ))
      (wrapped_eq hbytes p)
  induction k with
  | zero => exact hentry s.currentFrame
  | succ k ih =>
      have hstill : (after g k (entry s)).play ≠ 0 := by
        rw [ih]
        exact hplay
      rw [(h.continues (entry_continues s)).after_succ_of_play g k hstill, ih]
      exact hentry (loopPosition g s k + g.speed)

theorem linePosition_zero (g : Globals ℚ) (s : WaveSample ℚ) :
    linePosition g s 0 = s.currentFrame := by
  simp [linePosition]

theorem linePosition_succ (g : Globals ℚ) (s : WaveSample ℚ) (k : Nat) :
    linePosition g s (k + 1) = linePosition g s k + g.speed := by
  simp only [linePosition]
  push_cast
  ring

/-- The positions of a one-shot voice up to and including frame `k` lie in its
data. -/
def InsideTo (g : Globals ℚ) (s : WaveSample ℚ) (k : Nat) : Prop :=
  ∀ j ≤ k, 0 ≤ linePosition g s j ∧ linePosition g s j < frameCount s

theorem insideTo_zero (g : Globals ℚ) (s : WaveSample ℚ) :
    InsideTo g s 0 ↔ InData s := by
  simp [InsideTo, InData, linePosition_zero]

theorem insideTo_succ (g : Globals ℚ) (s : WaveSample ℚ) (k : Nat) :
    InsideTo g s (k + 1) ↔ InsideTo g s k ∧
      (0 ≤ linePosition g s (k + 1) ∧
        linePosition g s (k + 1) < frameCount s) := by
  constructor
  · intro h
    exact ⟨fun j hj => h j (by omega), h (k + 1) (le_refl _)⟩
  · rintro ⟨h, hlast⟩ j hj
    rcases Nat.lt_or_ge j (k + 1) with hlt | hge
    · exact h j (by omega)
    · obtain rfl : j = k + 1 := by omega
      exact hlast

/-- A one-shot voice plays along `linePosition` until it leaves its data, and
then never again. -/
theorem Sound.after_of_oneShot {s : WaveSample ℚ} (h : Sound s)
    (hplay : s.play ≠ 0) (hloop : s.doLoop = 0) (g : Globals ℚ) (k : Nat) :
    (InsideTo g s k → after g k (entry s) =
        { s with currentFrame := linePosition g s k }) ∧
      (¬ InsideTo g s k → (after g k (entry s)).play = 0) := by
  induction k with
  | zero =>
      rw [insideTo_zero, linePosition_zero]
      exact ⟨fun hin => entry_of_inside hloop hin,
        fun hout => entry_of_outside hloop hout⟩
  | succ k ih =>
      rw [insideTo_succ]
      by_cases hk : InsideTo g s k
      · have hnow := ih.1 hk
        have hstill : (after g k (entry s)).play ≠ 0 := by
          rw [hnow]
          exact hplay
        rw [(h.continues (entry_continues s)).after_succ_of_play g k hstill,
          hnow, linePosition_succ]
        constructor
        · rintro ⟨-, hin⟩
          exact entry_of_inside (by exact hloop) hin
        · intro hout
          exact entry_of_outside (by exact hloop)
            (fun hin => hout ⟨hk, hin⟩)
      · have hend := ih.2 hk
        rw [after_succ_of_ended g k hend]
        exact ⟨fun hin => absurd hin.1 hk, fun _ => hend⟩

/-! ## The whole output -/

theorem dataFrame_move (s : WaveSample ℚ) (p : ℚ) :
    dataFrame { s with currentFrame := p } = dataFrame s := rfl

/-- A looping voice plays for ever, the data under `loopPosition`. -/
theorem Sound.mixCalls_loop {s : WaveSample ℚ} (h : Sound s)
    (hbytes : s.bytes = 2) (hchannels : 1 ≤ s.channels) {g : Globals ℚ}
    (hg : g.bytes * g.channels = 4) (hplay : s.play ≠ 0)
    (hloop : s.doLoop ≠ 0) (ns : List Nat) :
    (mixCalls g ns s).2.play ≠ 0 ∧
    ∀ k < ns.sum,
      0 ≤ loopPosition g s k ∧ loopPosition g s k < frameCount s ∧
      frameAt (mixCalls g ns s).1 k = dataFrame s ⌊loopPosition g s k⌋ := by
  have hafter := h.after_of_loop hbytes hplay hloop g
  constructor
  · by_cases hns : ns = []
    · rw [hns]
      exact hplay
    · rw [h.mixCalls_voice hg hns, hafter]
      exact hplay
  · intro k hk
    have hin := h.after_inData g k (by rw [hafter]; exact hplay)
    rw [hafter] at hin
    refine ⟨hin.1, hin.2, ?_⟩
    rw [h.mixCalls_frame hbytes hchannels hg ns hk, hafter, heard,
      if_pos hplay, dataFrame_move]

/-- A one-shot voice plays the data under `linePosition` until it leaves its
data, and then silence. -/
theorem Sound.mixCalls_oneShot {s : WaveSample ℚ} (h : Sound s)
    (hbytes : s.bytes = 2) (hchannels : 1 ≤ s.channels) {g : Globals ℚ}
    (hg : g.bytes * g.channels = 4) (hplay : s.play ≠ 0)
    (hloop : s.doLoop = 0) (ns : List Nat) :
    (∀ k < ns.sum, InsideTo g s k →
      frameAt (mixCalls g ns s).1 k = dataFrame s ⌊linePosition g s k⌋) ∧
    (∀ k < ns.sum, ¬ InsideTo g s k →
      frameAt (mixCalls g ns s).1 k = (0, 0)) ∧
    (ns ≠ [] → ((mixCalls g ns s).2.play ≠ 0 ↔ InsideTo g s ns.sum)) := by
  have hafter := h.after_of_oneShot hplay hloop g
  refine ⟨?_, ?_, ?_⟩
  · intro k hk hin
    rw [h.mixCalls_frame hbytes hchannels hg ns hk, (hafter k).1 hin, heard,
      if_pos hplay, dataFrame_move]
  · intro k hk hout
    have hend := (hafter k).2 hout
    rw [h.mixCalls_frame hbytes hchannels hg ns hk, heard,
      if_neg (fun hstill => hstill hend)]
  · intro hns
    rw [h.mixCalls_voice hg hns]
    constructor
    · intro hstill
      by_contra hout
      exact hstill ((hafter ns.sum).2 hout)
    · intro hin
      rw [(hafter ns.sum).1 hin]
      exact hplay

/-- **What is heard.**  Cut into buffers in any way, a voice with whole frames
of sixteen-bit data plays the data under its positions: for ever if it loops,
until it leaves the data if it does not. -/
theorem mixCalls_renders {g : Globals ℚ} (hg : g.bytes * g.channels = 4)
    {s : WaveSample ℚ} {frames : Int} (hplay : s.play ≠ 0)
    (hbytes : s.bytes = 2) (hchannels : 1 ≤ s.channels) (hframes : 1 ≤ frames)
    (hlen : s.dataLen = 2 * s.channels * frames)
    (hloop : s.doLoop ≠ 0 →
      0 ≤ s.loopStart ∧ s.loopStart < stopByte s ∧ stopByte s ≤ s.dataLen)
    (ns : List Nat) : Renders g s frames ns := by
  have hsize : frameSize s = 2 * s.channels := by rw [frameSize, hbytes]
  have hsizepos : 0 < frameSize s := by omega
  have hdata : s.dataLen = frameSize s * frames := by rw [hlen, hsize]
  have hsound : Sound s :=
    ⟨hsizepos, by rw [hdata]; exact Int.mul_pos hsizepos (by omega), hloop⟩
  have hcount : frameCount s = frames := by
    rw [frameCount, hdata, Int.cast_mul,
      mul_div_cancel_left₀ _ hsound.size_pos.ne']
  constructor
  case length => exact mixCalls_length hg ns s
  case loop =>
    intro hl
    obtain ⟨hstill, hframes⟩ :=
      hsound.mixCalls_loop hbytes hchannels hg hplay hl ns
    refine ⟨hstill, ?_⟩
    intro k hk
    obtain ⟨h0, hlt, hframe⟩ := hframes k hk
    rw [hcount] at hlt
    exact ⟨Int.floor_nonneg.2 h0, Int.floor_lt.2 hlt, hframe⟩
  case oneShot =>
    intro hl
    obtain ⟨hinside, houtside, hend⟩ :=
      hsound.mixCalls_oneShot hbytes hchannels hg hplay hl ns
    simp only [InsideTo, hcount] at hinside houtside hend
    refine ⟨hinside, ?_, hend⟩
    rintro k hk ⟨j, hj, hout⟩
    exact houtside k hk (fun hall => hout (hall j hj))

/-- Two frames of stereo data, looping over the second one at half speed,
through buffers of two, no and three frames. -/
theorem halfSpeedLoop_renders :
    Renders ⟨2, 2, 1 / 2⟩
      { data := [1, 0, 2, 0, 3, 0, 4, 0], dataLen := 8, sampleRate := 44100
        channels := 2, bytes := 2, doLoop := 1, loopStart := 4, loopEnd := 8
        play := 1, currentFrame := 0, speed := 1 } 2 [2, 0, 3] :=
  mixCalls_renders rfl (by decide) rfl (by decide) (by decide) rfl
    (by intro _; decide) [2, 0, 3]

end Bucktoot.Ports.Mixer
