import Mathlib.Logic.Function.Iterate
import Bucktoot.Ports.Mixer

/-!
# What one call of `mix_sample` does to a voice and to the buffer

The loop of `mix_sample` moves a voice and adds to a buffer at the same time.
This module takes the two apart.  `track` and `voiceRun` follow the voice
alone: the byte offsets of the frames it comes to and the voice it leaves
behind.  `mixSample_mixed` says that the call does exactly that to the voice,
and that every sixteen-bit value of the buffer becomes the clamped sum of what
it was and what the voice contributes there.

The device is sixteen-bit stereo throughout, so a frame of output is four
bytes and the buffer has a whole number of them.  Nothing here depends on how
`double` rounds.
-/

namespace Bucktoot.Ports.Mixer

open Bucktoot.Verified.LittleEndian

/-! ## Sixteen-bit values of a buffer -/

/-- The `SHORT` with a given index. -/
def valueAt (mem : List UInt8) (v : Nat) : Int := shortAt mem ((2 * v : Nat) : Int)

theorem byteAt_natCast (mem : List UInt8) (p : Nat) :
    byteAt mem (p : Int) = mem.getD p 0 := by
  simp [byteAt]

theorem shortAt_natCast (mem : List UInt8) (p : Nat) :
    shortAt mem (p : Int) =
      signed16 (word16 (mem.getD p 0) (mem.getD (p + 1) 0)) := by
  have h : (p : Int) + 1 = ((p + 1 : Nat) : Int) := by omega
  rw [shortAt, h, byteAt_natCast, byteAt_natCast]

theorem shortAt_bounds (mem : List UInt8) (p : Int) :
    -32768 ≤ shortAt mem p ∧ shortAt mem p ≤ 32767 :=
  signed16_bounds (word16_lt _ _)

theorem valueAt_bounds (mem : List UInt8) (v : Nat) :
    -32768 ≤ valueAt mem v ∧ valueAt mem v ≤ 32767 :=
  shortAt_bounds mem _

theorem clampShort_bounds (a : Int) :
    -32768 ≤ clampShort a ∧ clampShort a ≤ 32767 := by
  unfold clampShort
  split
  · omega
  · split <;> omega

theorem clampShort_of_bounds {a : Int} (h : -32768 ≤ a ∧ a ≤ 32767) :
    clampShort a = a := by
  unfold clampShort
  split
  · omega
  · split <;> omega

@[simp] theorem putShort_length (mem : List UInt8) (p : Nat) (v : Int) :
    (putShort mem p v).length = mem.length := by
  simp [putShort]

/-- A stored value in range reads back. -/
theorem shortAt_putShort_self {mem : List UInt8} {p : Nat} {v : Int}
    (hp : p + 1 < mem.length) (hlo : -32768 ≤ v) (hhi : v ≤ 32767) :
    shortAt (putShort mem p v) p = v := by
  have h0 : (putShort mem p v).getD p 0 = UInt8.ofNat (v % 65536).toNat := by
    simp [putShort, show p < mem.length by omega]
  have h1 : (putShort mem p v).getD (p + 1) 0 =
      UInt8.ofNat ((v % 65536).toNat / 256) := by
    simp [putShort, hp]
  rw [shortAt_natCast, h0, h1, word16_ofNat (by omega)]
  exact signed16_emod hlo hhi

/-- A store leaves the values on either side of it alone. -/
theorem shortAt_putShort_of_apart {mem : List UInt8} {p q : Nat} (v : Int)
    (h : q + 1 < p ∨ p + 1 < q) :
    shortAt (putShort mem p v) q = shortAt mem q := by
  have hget : ∀ r, r ≠ p → r ≠ p + 1 →
      (putShort mem p v).getD r 0 = mem.getD r 0 := by
    intro r hp hp'
    simp [putShort, Ne.symm hp, Ne.symm hp']
  rw [shortAt_natCast, shortAt_natCast, hget q (by omega) (by omega),
    hget (q + 1) (by omega) (by omega)]

/-- Storing value `u` and reading value `v`. -/
theorem valueAt_putShort {mem : List UInt8} {u : Nat} {a : Int}
    (hu : 2 * u + 1 < mem.length) (ha : -32768 ≤ a ∧ a ≤ 32767) (v : Nat) :
    valueAt (putShort mem (2 * u) a) v = if v = u then a else valueAt mem v := by
  unfold valueAt
  by_cases hv : v = u
  · rw [if_pos hv, hv, shortAt_putShort_self hu ha.1 ha.2]
  · rw [if_neg hv, shortAt_putShort_of_apart a (by omega)]

theorem valueAt_replicate_zero (n v : Nat) :
    valueAt (List.replicate n 0) v = 0 := by
  have h : ∀ p, (List.replicate n (0 : UInt8)).getD p 0 = 0 := by
    intro p
    by_cases hp : p < n <;> simp [hp]
  rw [valueAt, shortAt_natCast, h, h]
  rfl

/-! ## What the helpers leave alone -/

/-- `t` is the voice `s` after some mixing: only the position and the play flag
may differ, and the flag may only have been cleared. -/
structure Continues {F : Type} (s t : WaveSample F) : Prop where
  fixed : t = { s with play := t.play, currentFrame := t.currentFrame }
  play : t.play = s.play ∨ t.play = 0

theorem Continues.refl {F : Type} (s : WaveSample F) : Continues s s :=
  ⟨rfl, .inl rfl⟩

theorem Continues.trans {F : Type} {s t u : WaveSample F}
    (h : Continues s t) (h' : Continues t u) : Continues s u := by
  obtain ⟨hfix, hplay⟩ := h
  obtain ⟨hfix', hplay'⟩ := h'
  constructor
  · rw [hfix', hfix]
  · rcases hplay' with hplay' | hplay'
    · rw [hplay']
      exact hplay
    · exact .inr hplay'

/-! ## What a frame contributes -/

section Contribution

variable {F : Type}

/-- The byte offsets read for the frame at `pos`: two for the left sample and
two for the right one. -/
def readsOf (s : WaveSample F) (pos : Int) : List Int :=
  let right := pos + 2 * rightIndex s
  [pos, pos + 1, right, right + 1]

/-- What a voice that comes to the frames at `frames` adds to value `v` of the
buffer. -/
def voiceOut (s : WaveSample F) (frames : List Int) (v : Nat) : Int :=
  match frames[v / 2]? with
  | none => 0
  | some pos =>
      if v % 2 = 0 then shortAt s.data pos
      else shortAt s.data (pos + 2 * rightIndex s)

theorem Continues.readsOf_eq {s t : WaveSample F} (h : Continues s t) :
    readsOf t = readsOf s := by
  rw [h.fixed]
  rfl

theorem Continues.voiceOut_eq {s t : WaveSample F} (h : Continues s t) :
    voiceOut t = voiceOut s := by
  rw [h.fixed]
  rfl

theorem voiceOut_nil (s : WaveSample F) (v : Nat) : voiceOut s [] v = 0 := by
  simp [voiceOut]

theorem voiceOut_bounds (s : WaveSample F) (frames : List Int) (v : Nat) :
    -32768 ≤ voiceOut s frames v ∧ voiceOut s frames v ≤ 32767 := by
  unfold voiceOut
  split
  · omega
  · split <;> exact shortAt_bounds _ _

/-- The first frame makes up the first two values, the others the rest. -/
theorem voiceOut_cons (s : WaveSample F) (pos : Int) (rest : List Int)
    (v : Nat) :
    voiceOut s (pos :: rest) v =
      if v < 2 then voiceOut s [pos] v else voiceOut s rest (v - 2) := by
  by_cases hv : v < 2
  · have h0 : v / 2 = 0 := by omega
    simp [voiceOut, hv, h0]
  · have h1 : v / 2 = (v - 2) / 2 + 1 := by omega
    have h2 : (v - 2) % 2 = v % 2 := by omega
    simp [voiceOut, hv, h1, h2]

/-- `r` is `m` after a voice has come to the frames of `run.1` and been left as
`run.2`, with the first of the frames going to value `base` of the buffer. -/
structure Mixed (frameCount : F) (base : Nat) (run : List Int × WaveSample F)
    (m r : Mix F) : Prop where
  sample : r.sample = run.2
  length : r.dst.length = m.dst.length
  value : ∀ v, valueAt r.dst v =
    if v < base then valueAt m.dst v
    else clampShort (valueAt m.dst v + voiceOut m.sample run.1 (v - base))
  reads : r.reads = m.reads ++ run.1.flatMap (readsOf m.sample)
  divisors : ∀ d ∈ r.divisors, d ∈ m.divisors ∨ d = frameCount

/-- A call that comes to no frame. -/
theorem Mixed.none (frameCount : F) (base : Nat) {s : WaveSample F}
    {m r : Mix F} (hsample : r.sample = s) (hdst : r.dst = m.dst)
    (hreads : r.reads = m.reads) (hdivisors : r.divisors = m.divisors) :
    Mixed frameCount base ([], s) m r where
  sample := hsample
  length := by rw [hdst]
  value := by
    intro v
    rw [hdst]
    split
    · rfl
    · rw [voiceOut_nil, Int.add_zero, clampShort_of_bounds (valueAt_bounds _ v)]
  reads := by rw [hreads, List.flatMap_nil, List.append_nil]
  divisors := by
    intro d hd
    rw [hdivisors] at hd
    exact .inl hd

/-- A pass and then the rest of the call. -/
theorem Mixed.cons {frameCount : F} {k : Nat} {pos : Int}
    {s : WaveSample F} {rest : List Int × WaveSample F} {m m' r : Mix F}
    (h : Mixed frameCount (2 * k) ([pos], s) m m')
    (hs : Continues m.sample s)
    (h' : Mixed frameCount (2 * (k + 1)) rest m' r) :
    Mixed frameCount (2 * k) (pos :: rest.1, rest.2) m r where
  sample := h'.sample
  length := h'.length.trans h.length
  value := by
    intro v
    have hout : voiceOut m'.sample = voiceOut m.sample := by
      rw [h.sample, hs.voiceOut_eq]
    rw [h'.value, h.value, hout]
    rcases Nat.lt_or_ge v (2 * k) with hv | hv
    · rw [if_pos hv, if_pos (by omega), if_pos hv]
    · obtain ⟨w, rfl⟩ := Nat.exists_eq_add_of_le hv
      rw [if_neg (show ¬ 2 * k + w < 2 * k by omega),
        if_neg (show ¬ 2 * k + w < 2 * k by omega), Nat.add_sub_cancel_left,
        voiceOut_cons m.sample pos rest.1]
      by_cases hw : w < 2
      · rw [if_pos (by omega), if_pos hw]
      · rw [if_neg (by omega), if_neg hw,
          show 2 * k + w - 2 * (k + 1) = w - 2 by omega,
          voiceOut_cons m.sample pos [] w, if_neg hw, voiceOut_nil,
          Int.add_zero, clampShort_of_bounds (valueAt_bounds _ _)]
  reads := by
    have hreads : readsOf m'.sample = readsOf m.sample := by
      rw [h.sample, hs.readsOf_eq]
    rw [h'.reads, h.reads, hreads]
    simp
  divisors := by
    intro d hd
    rcases h'.divisors d hd with hd | hd
    · exact h.divisors d hd
    · exact .inr hd

end Contribution

/-! ## Where `check_loop` moves a voice -/

section Voice

variable {F : Type} [Sub F] [Div F] [IntCast F] [LT F] [LE F]
  [DecidableLT F] [DecidableLE F]

/-- Where a looping voice starts over, in frames. -/
def loopFrom (s : WaveSample F) (frameSize : F) : F := (s.loopStart : F) / frameSize

/-- Where a looping voice stops, in frames. -/
def loopTo (s : WaveSample F) (frameSize : F) : F :=
  if s.loopEnd ≠ 0 then (s.loopEnd : F) / frameSize
  else (s.dataLen : F) / frameSize

/-- What `check_loop` makes of the position of a looping voice. -/
def wrap (start stop p : F) : F :=
  if p ≥ stop then start
  else if p < start then
    if stop - ((1 : Int) : F) < ((0 : Int) : F) then ((0 : Int) : F)
    else stop - ((1 : Int) : F)
  else p

theorem checkLoop_of_loop {s : WaveSample F} (h : s.doLoop ≠ 0)
    (frameSize : F) :
    checkLoop s frameSize =
      { s with
        currentFrame :=
          wrap (loopFrom s frameSize) (loopTo s frameSize) s.currentFrame } := by
  have hstop : loopTo s frameSize =
      if s.loopEnd ≠ 0 then (s.loopEnd : F) / frameSize
      else (s.dataLen : F) / frameSize := rfl
  unfold checkLoop wrap loopFrom
  rw [if_pos h]
  simp only [← hstop]
  split
  · rfl
  · split
    · split <;> rfl
    · rfl

theorem checkLoop_of_oneShot {s : WaveSample F} (h : s.doLoop = 0)
    (frameSize : F) :
    checkLoop s frameSize =
      { s with
        play :=
          if s.currentFrame ≥ (s.dataLen : F) / frameSize ∨
              s.currentFrame < ((0 : Int) : F) then 0
          else s.play } := by
  unfold checkLoop
  rw [if_neg (not_not.2 h)]
  by_cases hhi : s.currentFrame ≥ (s.dataLen : F) / frameSize
  · simp only [if_pos hhi, if_pos (Or.inl hhi)]
  · by_cases hlo : s.currentFrame < ((0 : Int) : F)
    · simp only [if_neg hhi, if_pos hlo, if_pos (Or.inr hlo)]
    · simp only [if_neg hhi, if_neg hlo, if_neg (not_or.2 ⟨hhi, hlo⟩)]

/-- In front of a buffer the two functions do the same to the voice. -/
theorem clampCurrentFrame_eq_checkLoop (s : WaveSample F) (frameSize : F) :
    clampCurrentFrame s frameSize ((s.dataLen : F) / frameSize) =
      checkLoop s frameSize := by
  unfold clampCurrentFrame
  split
  · rfl
  · rename_i h
    unfold checkLoop
    rw [if_neg h]

theorem checkLoop_continues (s : WaveSample F) (frameSize : F) :
    Continues s (checkLoop s frameSize) := by
  by_cases h : s.doLoop = 0
  · rw [checkLoop_of_oneShot h]
    constructor
    · rfl
    · dsimp only
      split
      · exact .inr rfl
      · exact .inl rfl
  · rw [checkLoop_of_loop h]
    exact ⟨rfl, .inl rfl⟩

/-- A looping voice is never ended. -/
theorem checkLoop_play_of_loop {s : WaveSample F} (h : s.doLoop ≠ 0)
    (frameSize : F) : (checkLoop s frameSize).play = s.play := by
  rw [checkLoop_of_loop h]

variable [Add F] [Double F]

theorem stepFrame_continues (g : Globals F) (frameSize frameCount : F)
    (s : WaveSample F) : Continues s (stepFrame g frameSize frameCount s) := by
  have h := checkLoop_continues
    { s with currentFrame := s.currentFrame + g.speed } frameSize
  have hmove : Continues s { s with currentFrame := s.currentFrame + g.speed } :=
    ⟨rfl, .inl rfl⟩
  unfold stepFrame
  dsimp only
  split
  · exact hmove.trans h
  · exact (hmove.trans h).trans ⟨rfl, .inl rfl⟩

theorem stepFrame_play_of_loop (g : Globals F) (frameSize frameCount : F)
    {s : WaveSample F} (hloop : s.doLoop ≠ 0) :
    (stepFrame g frameSize frameCount s).play = s.play := by
  have hplay := checkLoop_play_of_loop
    (s := { s with currentFrame := s.currentFrame + g.speed }) hloop frameSize
  rw [stepFrame]
  split
  · exact hplay
  · exact hplay

/-! ## Following a voice -/

/-- The voice after one more frame of output; one that has ended stays as it
is. -/
def settle (g : Globals F) (frameSize frameCount : F) (s : WaveSample F) :
    WaveSample F :=
  if s.play = 0 then s else stepFrame g frameSize frameCount s

theorem settle_continues (g : Globals F) (frameSize frameCount : F)
    (s : WaveSample F) : Continues s (settle g frameSize frameCount s) := by
  unfold settle
  split
  · exact .refl s
  · exact stepFrame_continues g frameSize frameCount s

theorem settle_iterate_continues (g : Globals F) (frameSize frameCount : F)
    (n : Nat) (s : WaveSample F) :
    Continues s ((settle g frameSize frameCount)^[n] s) := by
  induction n with
  | zero => exact .refl s
  | succ n ih =>
      rw [Function.iterate_succ_apply']
      exact ih.trans (settle_continues g frameSize frameCount _)

theorem settle_iterate_of_ended (g : Globals F) (frameSize frameCount : F)
    (n : Nat) {s : WaveSample F} (h : s.play = 0) :
    (settle g frameSize frameCount)^[n] s = s := by
  have hfix : settle g frameSize frameCount s = s := if_pos h
  exact Function.iterate_fixed hfix n

variable [Mul F]

/-- The byte offsets of the frames the loop comes to in at most so many passes,
and the voice it leaves behind. -/
def track (g : Globals F) (iframeSize : Int) (frameSize frameCount : F) :
    Nat → WaveSample F → List Int × WaveSample F
  | 0, s => ([], s)
  | n + 1, s =>
      let s' := stepFrame g frameSize frameCount s
      let rest :=
        if s'.play = 0 then ([], s')
        else track g iframeSize frameSize frameCount n s'
      (framePos s iframeSize frameSize :: rest.1, rest.2)

/-- The same for a whole call of `mix_sample` on so many frames of output. -/
def voiceRun (g : Globals F) (n : Nat) (s : WaveSample F) :
    List Int × WaveSample F :=
  let iframeSize := s.bytes * s.channels
  if iframeSize ≤ 0 then ([], s)
  else
    let frameSize : F := (iframeSize : F)
    let frameCount : F := (s.dataLen : F) / frameSize
    let s' := clampCurrentFrame s frameSize frameCount
    if s'.play = 0 then ([], s')
    else track g iframeSize frameSize frameCount n s'

/-- The voice a call leaves behind. -/
theorem track_voice (g : Globals F) (iframeSize : Int)
    (frameSize frameCount : F) (n : Nat) {s : WaveSample F}
    (h : s.play ≠ 0) :
    (track g iframeSize frameSize frameCount n s).2 =
      (settle g frameSize frameCount)^[n] s := by
  induction n generalizing s with
  | zero => rfl
  | succ n ih =>
      have hstep : settle g frameSize frameCount s =
          stepFrame g frameSize frameCount s := if_neg h
      rw [Function.iterate_succ_apply, hstep]
      unfold track
      dsimp only
      split
      · rename_i hend
        rw [settle_iterate_of_ended g frameSize frameCount n hend]
      · rename_i hplay
        exact ih hplay

/-- The `k`-th frame a call comes to, as long as the voice has not ended. -/
theorem track_frame (g : Globals F) (iframeSize : Int)
    (frameSize frameCount : F) (n k : Nat) {s : WaveSample F}
    (h : s.play ≠ 0) :
    (track g iframeSize frameSize frameCount n s).1[k]? =
      if k < n ∧ ((settle g frameSize frameCount)^[k] s).play ≠ 0 then
        some (framePos ((settle g frameSize frameCount)^[k] s) iframeSize
          frameSize)
      else none := by
  induction n generalizing s k with
  | zero => simp [track]
  | succ n ih =>
      have hstep : settle g frameSize frameCount s =
          stepFrame g frameSize frameCount s := if_neg h
      unfold track
      dsimp only
      cases k with
      | zero => simp [h]
      | succ k =>
          rw [Function.iterate_succ_apply, hstep, List.getElem?_cons_succ]
          split
          · rename_i hend
            rw [settle_iterate_of_ended g frameSize frameCount k hend]
            simp [hend]
          · rename_i hplay
            rw [ih k hplay]
            simp only [Nat.add_lt_add_iff_right]

/-! ## The loop -/

/-- A pass mixes in the frame under the position and moves the voice on. -/
theorem mixFrame_mixed (g : Globals F) (iframeSize : Int)
    (frameSize frameCount : F) {k : Nat} {m : Mix F}
    (hk : 4 * k + 4 ≤ m.dst.length) :
    Mixed frameCount (2 * k)
      ([framePos m.sample iframeSize frameSize],
        stepFrame g frameSize frameCount m.sample)
      m (mixFrame g iframeSize frameSize frameCount (4 * k) m) := by
  have hleft : 4 * k = 2 * (2 * k) := by omega
  have hright : 4 * k + 2 = 2 * (2 * k + 1) := by omega
  have hcast : ((4 * k : Nat) : Int) + 2 = ((2 * (2 * k + 1) : Nat) : Int) := by
    omega
  constructor
  case sample => rfl
  case length => simp [mixFrame]
  case reads => simp [mixFrame, readsOf]
  case divisors =>
    intro d hd
    simp only [mixFrame] at hd
    split at hd
    · exact .inl hd
    · rcases List.mem_append.1 hd with hd | hd
      · exact .inl hd
      · exact .inr (List.mem_singleton.1 hd)
  case value =>
    intro v
    simp only [mixFrame]
    rw [hright, valueAt_putShort (by simp; omega) (clampShort_bounds _), hcast,
      hleft, valueAt_putShort (by omega) (clampShort_bounds _)]
    rw [shortAt_putShort_of_apart _ (by omega)]
    show (if v = 2 * k + 1 then
        clampShort (valueAt m.dst (2 * k + 1) + _)
      else if v = 2 * k then clampShort (valueAt m.dst (2 * k) + _)
      else _) = _
    rcases Nat.lt_or_ge v (2 * k) with hv | hv
    · rw [if_neg (by omega), if_neg (by omega), if_pos hv]
    · rw [if_neg (show ¬ v < 2 * k by omega)]
      obtain ⟨w, rfl⟩ := Nat.exists_eq_add_of_le hv
      rw [Nat.add_sub_cancel_left]
      rcases w with _ | _ | w
      · rw [if_neg (by omega), if_pos (by omega)]
        rfl
      · rw [if_pos (by omega)]
        rfl
      · rw [if_neg (by omega), if_neg (by omega), voiceOut_cons,
          if_neg (by omega), voiceOut_nil, Int.add_zero,
          clampShort_of_bounds (valueAt_bounds _ _)]

/-- The loop, entered with `n` frames of the buffer left. -/
theorem mixLoop_mixed {g : Globals F} (hg : g.bytes * g.channels = 4)
    (iframeSize : Int) (frameSize frameCount : F) (n : Nat) :
    ∀ (fuel k : Nat) (m : Mix F), n ≤ fuel → m.dst.length = 4 * (k + n) →
      Mixed frameCount (2 * k)
        (track g iframeSize frameSize frameCount n m.sample) m
        (mixLoop g iframeSize frameSize frameCount fuel (4 * k) m) := by
  induction n with
  | zero =>
      intro fuel k m _ hlen
      have hstop : mixLoop g iframeSize frameSize frameCount fuel (4 * k) m =
          m := by
        cases fuel with
        | zero => rfl
        | succ fuel => rw [mixLoop, if_neg (by omega)]
      rw [hstop]
      exact .none frameCount _ rfl rfl rfl rfl
  | succ n ih =>
      intro fuel k m hfuel hlen
      obtain ⟨fuel, rfl⟩ : ∃ f, fuel = f + 1 := ⟨fuel - 1, by omega⟩
      have hpass := mixFrame_mixed g iframeSize frameSize frameCount
        (k := k) (m := m) (by omega)
      have hcont := stepFrame_continues g frameSize frameCount m.sample
      rw [mixLoop, if_pos (by omega)]
      dsimp only
      have hsample : (mixFrame g iframeSize frameSize frameCount (4 * k)
        m).sample = stepFrame g frameSize frameCount m.sample := rfl
      rw [hsample]
      apply hpass.cons hcont
      split
      · exact .none frameCount _ rfl rfl rfl rfl
      · rw [hg, ← hsample]
        exact ih fuel (k + 1) _ (by omega) (by rw [hpass.length, hlen]; omega)

/-- A relation that every pass keeps, between the first state of the loop and
the last one. -/
theorem mixLoop_rel {g : Globals F} {iframeSize : Int}
    {frameSize frameCount : F} (R : Mix F → Mix F → Prop)
    (hrefl : ∀ m, R m m) (htrans : ∀ m₁ m₂ m₃, R m₁ m₂ → R m₂ m₃ → R m₁ m₃)
    (hpass : ∀ i m, R m (mixFrame g iframeSize frameSize frameCount i m))
    (fuel i : Nat) (m : Mix F) :
    R m (mixLoop g iframeSize frameSize frameCount fuel i m) := by
  induction fuel generalizing i m with
  | zero => exact hrefl m
  | succ fuel ih =>
      rw [mixLoop]
      split
      · dsimp only
        split
        · exact hpass i m
        · apply htrans _ _ _ (hpass i m)
          exact ih _ _
      · exact hrefl m

/-! ## The call -/

section Call

variable {g : Globals F} {dst : List UInt8} {s : WaveSample F}

theorem mixSample_of_noFrame (hsize : s.bytes * s.channels ≤ 0) :
    mixSample g dst s = ⟨dst, s, [], [], []⟩ := by
  rw [mixSample]
  exact if_pos hsize

/-- The check in front of the loop ends the voice. -/
theorem mixSample_of_ended (hsize : 0 < s.bytes * s.channels)
    (hend : (checkLoop s ((s.bytes * s.channels : Int) : F)).play = 0) :
    mixSample g dst s =
      ⟨dst, checkLoop s ((s.bytes * s.channels : Int) : F), [], [], []⟩ := by
  rw [mixSample]
  dsimp only
  rw [if_neg (Int.not_le.2 hsize), clampCurrentFrame_eq_checkLoop, if_pos hend]

theorem mixSample_of_playing (hsize : 0 < s.bytes * s.channels)
    (hplay : (checkLoop s ((s.bytes * s.channels : Int) : F)).play ≠ 0) :
    mixSample g dst s =
      mixLoop g (s.bytes * s.channels) ((s.bytes * s.channels : Int) : F)
        ((s.dataLen : F) / ((s.bytes * s.channels : Int) : F)) dst.length 0
        ⟨dst, checkLoop s ((s.bytes * s.channels : Int) : F), [], [], []⟩ := by
  rw [mixSample]
  dsimp only
  rw [if_neg (Int.not_le.2 hsize), clampCurrentFrame_eq_checkLoop, if_neg hplay]

/-- What `mix_sample` can do: return at once, check the voice and return, or
check it and run the loop. -/
theorem mixSample_cases (g : Globals F) (dst : List UInt8) (s : WaveSample F) :
    mixSample g dst s = ⟨dst, s, [], [], []⟩ ∨
    mixSample g dst s =
      ⟨dst, checkLoop s ((s.bytes * s.channels : Int) : F), [], [], []⟩ ∨
    mixSample g dst s =
      mixLoop g (s.bytes * s.channels) ((s.bytes * s.channels : Int) : F)
        ((s.dataLen : F) / ((s.bytes * s.channels : Int) : F)) dst.length 0
        ⟨dst, checkLoop s ((s.bytes * s.channels : Int) : F), [], [], []⟩ := by
  by_cases hsize : s.bytes * s.channels ≤ 0
  · exact .inl (mixSample_of_noFrame hsize)
  · rw [Int.not_le] at hsize
    by_cases hplay : (checkLoop s ((s.bytes * s.channels : Int) : F)).play = 0
    · exact .inr (.inl (mixSample_of_ended hsize hplay))
    · exact .inr (.inr (mixSample_of_playing hsize hplay))

end Call

/-- **One call.**  On a buffer of `n` frames `mix_sample` takes the voice
through `voiceRun`, reads the frames it comes to and nothing else, divides by
nothing but the number of frames of the data, and makes every value of the
buffer the clamped sum of what was there and what the voice adds. -/
theorem mixSample_mixed {g : Globals F} (hg : g.bytes * g.channels = 4)
    {n : Nat} {dst : List UInt8} (hdst : dst.length = 4 * n)
    (s : WaveSample F) :
    Mixed ((s.dataLen : F) / ((s.bytes * s.channels : Int) : F)) 0
      (voiceRun g n s) ⟨dst, s, [], [], []⟩ (mixSample g dst s) := by
  unfold mixSample voiceRun
  dsimp only
  split
  · exact .none _ _ rfl rfl rfl rfl
  · have hclamp := checkLoop_continues s ((s.bytes * s.channels : Int) : F)
    rw [clampCurrentFrame_eq_checkLoop]
    split
    · exact .none _ _ rfl rfl rfl rfl
    · have h := mixLoop_mixed hg (s.bytes * s.channels)
        ((s.bytes * s.channels : Int) : F)
        ((s.dataLen : F) / ((s.bytes * s.channels : Int) : F)) n dst.length 0
        ⟨dst, checkLoop s ((s.bytes * s.channels : Int) : F), [], [], []⟩
        (by omega) (by simpa using hdst)
      constructor
      · exact h.sample
      · exact h.length
      · intro v
        have hv := h.value v
        rw [hclamp.voiceOut_eq] at hv
        exact hv
      · have hr := h.reads
        rw [hclamp.readsOf_eq] at hr
        exact hr
      · exact h.divisors

/-- A call does not change the length of the buffer. -/
theorem mixSample_length {g : Globals F} (hg : g.bytes * g.channels = 4)
    (n : Nat) (s : WaveSample F) :
    (mixSample g (List.replicate (4 * n) 0) s).dst.length = 4 * n := by
  rw [(mixSample_mixed hg List.length_replicate s).length,
    List.length_replicate]

/-- Mixed into a silent buffer, a voice is there as it is. -/
theorem mixSample_silent {g : Globals F} (hg : g.bytes * g.channels = 4)
    (n : Nat) (s : WaveSample F) (v : Nat) :
    valueAt (mixSample g (List.replicate (4 * n) 0) s).dst v =
      voiceOut s (voiceRun g n s).1 v := by
  have hmixed := mixSample_mixed hg
    (show (List.replicate (4 * n) (0 : UInt8)).length = 4 * n by simp) s
  rw [hmixed.value v, if_neg (Nat.not_lt_zero v), valueAt_replicate_zero,
    Int.zero_add, clampShort_of_bounds (voiceOut_bounds s _ _)]
  rfl

end Voice

end Bucktoot.Ports.Mixer
