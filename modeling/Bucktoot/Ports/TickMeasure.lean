import Mathlib.Tactic.Common

/-!
# `tick_measure` of `utils_time.c`

A call with `end` set returns the milliseconds since the call before it.  The
frequency of the counter is asked for once, and only the call that asks looks
whether it is zero; the flag that it has been asked for is set before that.
So a frequency of zero is caught once, and the next measurement divides by it.

* `tickMeasure_of_start`, `tickMeasure_of_measure`, `tickMeasure_of_asking` and
  `tickMeasure_of_asked` — what a call does;
* `allReturn_iff` — the sequences of calls that return one and all.
-/

namespace Bucktoot.Ports.TickMeasure

/-- What a call finds: its argument `end`, and the performance counter. -/
structure Call where
  stop : Int
  tmp : Int64

/-- The static variables of `tick_measure`. -/
structure Statics where
  tick : Int64
  freq : Int64
  haveFreq : Bool

def Statics.init : Statics := { tick := 0, freq := 0, haveFreq := false }

/-- `tick_measure` on a machine with this frequency: what it returns and the
static variables afterwards, or `none` where it divides by zero. -/
def tickMeasure (frequency : Int64) (c : Call) (s : Statics) :
    Option (Int32 × Statics) :=
  if c.stop ≠ 0 then
    let val := c.tmp - s.tick
    let s' :=
      if s.haveFreq then s else { s with freq := frequency, haveFreq := true }
    -- this test is inside of the branch that asks for the frequency
    if s.haveFreq = false ∧ s'.freq = 0 then some (0, s')
    else if s'.freq = 0 then none
    else some ((val * 1000 / s'.freq).toInt32, { s' with tick := c.tmp })
  else some (0, { s with tick := c.tmp })

/-- One call after the other: none of them divides by zero, and those that
measure nothing, or have nothing to measure with, return zero. -/
def AllReturn (frequency : Int64) : List Call → Statics → Prop
  | [], _ => True
  | c :: rest, s =>
      ∃ result s', tickMeasure frequency c s = some (result, s') ∧
        (c.stop = 0 ∨ frequency = 0 → result = 0) ∧ AllReturn frequency rest s'

/-- The frequency that has been asked for is that of the machine. -/
def Knows (frequency : Int64) (s : Statics) : Prop :=
  s.haveFreq = true → s.freq = frequency

variable {frequency : Int64} {c : Call} {s : Statics}

theorem tickMeasure_of_start (h : c.stop = 0) :
    tickMeasure frequency c s = some (0, { s with tick := c.tmp }) := by
  rw [tickMeasure, if_neg (not_not.2 h)]

/-- A call that measures divides by the frequency, unless that is zero. -/
theorem tickMeasure_of_measure (hf : frequency ≠ 0)
    (hknows : Knows frequency s) (h : c.stop ≠ 0) :
    tickMeasure frequency c s =
      some (((c.tmp - s.tick) * 1000 / frequency).toInt32,
        { tick := c.tmp, freq := frequency, haveFreq := true }) := by
  rw [tickMeasure, if_pos h]
  cases hhave : s.haveFreq with
  | true => simp [hknows hhave, hf, hhave]
  | false => simp [hf]

/-- The call that asks for a frequency of zero returns zero. -/
theorem tickMeasure_of_asking (hhave : s.haveFreq = false) (h : c.stop ≠ 0) :
    tickMeasure 0 c s = some (0, { s with freq := 0, haveFreq := true }) := by
  rw [tickMeasure, if_pos h]
  simp [hhave]

/-- From then on a call that measures divides by it. -/
theorem tickMeasure_of_asked (hhave : s.haveFreq = true) (hfreq : s.freq = 0)
    (h : c.stop ≠ 0) : tickMeasure 0 c s = none := by
  rw [tickMeasure, if_pos h]
  simp [hhave, hfreq]

/-! ## Sequences of calls -/

theorem allReturn_cons_of_some {rest : List Call} {result : Int32}
    {s' : Statics} (h : tickMeasure frequency c s = some (result, s'))
    (hzero : c.stop = 0 ∨ frequency = 0 → result = 0) :
    AllReturn frequency (c :: rest) s ↔ AllReturn frequency rest s' := by
  constructor
  · rintro ⟨result', s'', h', -, hrest⟩
    obtain ⟨-, rfl⟩ := Prod.mk.inj (Option.some.inj (h.symm.trans h'))
    exact hrest
  · exact fun hrest => ⟨result, s', h, hzero, hrest⟩

theorem not_allReturn_cons_of_none {rest : List Call}
    (h : tickMeasure frequency c s = none) :
    ¬ AllReturn frequency (c :: rest) s := by
  rintro ⟨result, s', h', -⟩
  rw [h] at h'
  cases h'

theorem allReturn_of_frequency (hf : frequency ≠ 0) (calls : List Call)
    (hknows : Knows frequency s) : AllReturn frequency calls s := by
  induction calls generalizing s with
  | nil => exact trivial
  | cons c rest ih =>
      by_cases hstop : c.stop = 0
      · rw [allReturn_cons_of_some (tickMeasure_of_start hstop) (fun _ => rfl)]
        exact ih hknows
      · have hcall := tickMeasure_of_measure hf hknows hstop
        rw [allReturn_cons_of_some hcall (fun h => absurd h (by simp [hstop, hf]))]
        exact ih (fun _ => rfl)

/-- Behind the call that has asked for a frequency of zero, no call may
measure. -/
theorem allReturn_zero_asked (calls : List Call) (hhave : s.haveFreq = true)
    (hfreq : s.freq = 0) :
    AllReturn 0 calls s ↔ ∀ c ∈ calls, c.stop = 0 := by
  induction calls generalizing s with
  | nil => exact iff_of_true trivial (fun c hc => absurd hc List.not_mem_nil)
  | cons c rest ih =>
      rw [List.forall_mem_cons]
      by_cases hstop : c.stop = 0
      · rw [allReturn_cons_of_some (tickMeasure_of_start hstop) (fun _ => rfl),
          ih (s := { s with tick := c.tmp }) hhave hfreq]
        exact (and_iff_right hstop).symm
      · have hcall := tickMeasure_of_asked hhave hfreq hstop
        exact iff_of_false (not_allReturn_cons_of_none hcall)
          (fun h => hstop h.1)

/-- In front of it, one more call may. -/
theorem allReturn_zero_unasked (calls : List Call)
    (hhave : s.haveFreq = false) :
    AllReturn 0 calls s ↔
      calls.Pairwise (fun c d => c.stop = 0 ∨ d.stop = 0) := by
  induction calls generalizing s with
  | nil => exact iff_of_true trivial .nil
  | cons c rest ih =>
      rw [List.pairwise_cons]
      by_cases hstop : c.stop = 0
      · rw [allReturn_cons_of_some (tickMeasure_of_start hstop) (fun _ => rfl),
          ih (s := { s with tick := c.tmp }) hhave]
        exact (and_iff_right (fun _ _ => .inl hstop)).symm
      · have hcall := tickMeasure_of_asking hhave hstop
        have hor : ∀ d : Call, (c.stop = 0 ∨ d.stop = 0) ↔ d.stop = 0 :=
          fun d => or_iff_right hstop
        rw [allReturn_cons_of_some hcall (fun _ => rfl),
          allReturn_zero_asked rest rfl rfl]
        simp only [hor]
        refine (and_iff_left_of_imp (fun hall => ?_)).symm
        exact List.pairwise_of_forall_mem_list
          (fun _ _ d hd => .inr (hall d hd))

/-- A sequence of calls never divides by zero, and returns zero where it has
to, exactly if the frequency is not zero or at most one of the calls
measures. -/
theorem allReturn_iff (frequency : Int64) (calls : List Call) :
    AllReturn frequency calls .init ↔
      frequency ≠ 0 ∨ calls.Pairwise (fun c d => c.stop = 0 ∨ d.stop = 0) := by
  by_cases hf : frequency = 0
  · rw [hf, allReturn_zero_unasked calls rfl]
    exact (or_iff_right (not_not.2 rfl)).symm
  · exact iff_of_true (allReturn_of_frequency hf calls (fun h => by cases h))
      (.inl hf)

/-- On a machine without a counter the second measurement divides by zero. -/
theorem not_allReturn :
    ¬ ∀ (frequency : Int64) (calls : List Call),
      AllReturn frequency calls .init := by
  intro h
  obtain ⟨result, s, hfirst, -, result', s', hsecond, -⟩ :=
    h 0 [⟨1, 0⟩, ⟨1, 0⟩]
  obtain ⟨-, rfl⟩ := Prod.mk.inj (Option.some.inj hfirst)
  cases hsecond

end Bucktoot.Ports.TickMeasure
