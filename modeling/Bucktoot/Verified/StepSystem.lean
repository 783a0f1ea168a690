import Mathlib.Data.List.GetD
import Mathlib.Data.Nat.Count
import Mathlib.Logic.Relation

/-!
# Systems that take labelled steps

A system is a function `step` that says for a state and an action what the
next state is, or `none` where the action is not possible there.  Interleaving
needs nothing more: the action says which party moves.

* `Reachable` and `reachable_invariant` — the states some run comes to, and
  what every step preserves;
* `exec` — the state after given actions, for building a run;
* `Run` — a run with its history, for properties that compare moments;
* `Run.invariant`, `Run.invariantAt` — invariants along one run, the second
  with a condition on the steps of this run;
* `exists_rise`, `exists_fall` — what holds now and did not hold at first has a
  last moment at which it became true, what has ended a first one;
* `Run.taken` and `Run.exists_exit` — what some steps use up cannot outlast
  as many of them.

Nothing here mentions a particular program.
-/

namespace Bucktoot.Verified.StepSystem

variable {σ α : Type*} {step : σ → α → Option σ} {init : σ}

/-- One step, whatever the action. -/
def Steps (step : σ → α → Option σ) (s s' : σ) : Prop :=
  ∃ a, step s a = some s'

/-- The states that finitely many steps from `init` come to. -/
abbrev Reachable (step : σ → α → Option σ) (init : σ) : σ → Prop :=
  Relation.ReflTransGen (Steps step) init

/-- An invariant of the steps holds in every reachable state. -/
theorem reachable_invariant (Inv : σ → Prop) (h0 : Inv init)
    (hstep : ∀ s a s', Inv s → step s a = some s' → Inv s') {s : σ}
    (h : Reachable step init s) : Inv s := by
  induction h with
  | refl => exact h0
  | tail _ hlast ih =>
      obtain ⟨a, ha⟩ := hlast
      exact hstep _ a _ ih ha

/-- The state after a list of actions, if they are possible one after the
other. -/
def exec (step : σ → α → Option σ) : List α → σ → Option σ
  | [], s => some s
  | a :: rest, s => (step s a).bind (exec step rest)

theorem reachable_of_exec {acts : List α} {s : σ}
    (h : exec step acts init = some s) : Reachable step init s := by
  induction acts generalizing init with
  | nil =>
      obtain rfl := Option.some.inj h
      exact .refl
  | cons a rest ih =>
      obtain ⟨u, hu, hrest⟩ := Option.bind_eq_some_iff.1 h
      exact .head ⟨a, hu⟩ (ih hrest)

/-- A run of `len` steps: the states it goes through and the actions it takes.
What the functions say behind the end has no meaning. -/
structure Run (step : σ → α → Option σ) (init : σ) where
  len : Nat
  state : Nat → σ
  act : Nat → α
  start : state 0 = init
  next : ∀ i < len, step (state i) (act i) = some (state (i + 1))

variable (r : Run step init)

/-- A step whose action is known. -/
theorem Run.next_of_act {i : Nat} {a : α} (hi : i < r.len) (ha : r.act i = a) :
    step (r.state i) a = some (r.state (i + 1)) := by
  rw [← ha]
  exact r.next i hi

/-- An invariant of the steps this run takes holds at every moment. -/
theorem Run.invariantAt (Inv : Nat → σ → Prop) (h0 : Inv 0 init)
    (hstep : ∀ i < r.len, Inv i (r.state i) → Inv (i + 1) (r.state (i + 1)))
    {i : Nat} (hi : i ≤ r.len) : Inv i (r.state i) := by
  induction i with
  | zero =>
      rw [r.start]
      exact h0
  | succ i ih => exact hstep i (by omega) (ih (by omega))

/-- An invariant of all steps holds at every moment. -/
theorem Run.invariant (Inv : σ → Prop) (h0 : Inv init)
    (hstep : ∀ s a s', Inv s → step s a = some s' → Inv s') {i : Nat}
    (hi : i ≤ r.len) : Inv (r.state i) :=
  r.invariantAt (fun _ => Inv) h0
    (fun i hlt hinv => hstep _ _ _ hinv (r.next i hlt)) hi

theorem Run.reachable {i : Nat} (hi : i ≤ r.len) :
    Reachable step init (r.state i) :=
  r.invariantAt (fun _ => Reachable step init) .refl
    (fun i hlt hreach => hreach.tail ⟨r.act i, r.next i hlt⟩) hi

variable (step) in
theorem exec_append (xs ys : List α) (s : σ) :
    exec step (xs ++ ys) s = (exec step xs s).bind (exec step ys) := by
  induction xs generalizing s with
  | nil => rfl
  | cons a xs ih =>
      rw [List.cons_append, exec, exec, Option.bind_assoc]
      exact congrArg _ (funext ih)

theorem exec_singleton (step : σ → α → Option σ) (a : α) (s : σ) :
    exec step [a] s = step s a := Option.bind_fun_some _

/-- The run that takes a list of possible actions. -/
def Run.ofExec (acts : List α) (a₀ : α) {s : σ}
    (h : exec step acts init = some s) : Run step init where
  len := acts.length
  state i := (exec step (acts.take i) init).getD init
  act i := acts.getD i a₀
  start := rfl
  next := by
    intro i hi
    have hsplit := exec_append step (acts.take (i + 1)) (acts.drop (i + 1)) init
    rw [List.take_append_drop, h] at hsplit
    obtain ⟨u, hu, -⟩ := Option.bind_eq_some_iff.1 hsplit.symm
    have hstep := exec_append step (acts.take i) [acts[i]] init
    rw [← List.take_succ_eq_append_getElem hi, hu] at hstep
    obtain ⟨t, ht, htu⟩ := Option.bind_eq_some_iff.1 hstep.symm
    obtain ⟨u', hu', hnil⟩ := Option.bind_eq_some_iff.1 htu
    obtain rfl : u' = u := Option.some.inj hnil
    rw [ht, hu, List.getD_eq_getElem _ _ hi]
    exact hu'

/-- What the steps between two moments preserve holds at the second one. -/
theorem Run.between (P : σ → Prop) {m n : Nat} (hmn : m ≤ n)
    (hm : P (r.state m))
    (hstep : ∀ i, m ≤ i → i < n → P (r.state i) → P (r.state (i + 1))) :
    P (r.state n) := by
  obtain ⟨k, rfl⟩ := Nat.exists_eq_add_of_le hmn
  clear hmn
  induction k with
  | zero => exact hm
  | succ k ih =>
      exact hstep (m + k) (by omega) (by omega)
        (ih (fun i hmi hik => hstep i hmi (by omega)))

/-- The last moment at which something that holds now became true. -/
theorem exists_rise {P : Nat → Prop} {n : Nat} (h0 : ¬ P 0) (hn : P n) :
    ∃ t < n, ¬ P t ∧ ∀ m, t < m → m ≤ n → P m := by
  induction n with
  | zero => exact absurd hn h0
  | succ n ih =>
      by_cases h : P n
      · obtain ⟨t, ht, hPt, hafter⟩ := ih h
        refine ⟨t, by omega, hPt, ?_⟩
        intro m htm hm
        rcases Nat.lt_or_ge m (n + 1) with hlt | hge
        · exact hafter m htm (by omega)
        · obtain rfl : m = n + 1 := by omega
          exact hn
      · refine ⟨n, by omega, h, ?_⟩
        intro m htm hm
        obtain rfl : m = n + 1 := by omega
        exact hn

/-- What holds now and does not hold later has a first moment at which it has
ended. -/
theorem exists_fall {P : Nat → Prop} {m n : Nat} (hmn : m ≤ n) (hm : P m)
    (hn : ¬ P n) : ∃ t, m ≤ t ∧ t < n ∧ (∀ i, m ≤ i → i ≤ t → P i) ∧
      ¬ P (t + 1) := by
  classical
  have hends : ∃ d, ¬ P (m + d) := ⟨n - m, by
    rw [Nat.add_sub_cancel' hmn]
    exact hn⟩
  have hfirst := Nat.find_spec hends
  obtain ⟨d, hd⟩ : ∃ d, Nat.find hends = d + 1 := by
    refine Nat.exists_eq_add_one_of_ne_zero fun hzero => ?_
    rw [hzero] at hfirst
    exact hfirst hm
  have hbefore : ∀ i, m ≤ i → i ≤ m + d → P i := by
    intro i hmi hid
    have hmin := Nat.find_min hends (m := i - m) (by omega)
    rw [Nat.add_sub_cancel' hmi] at hmin
    exact not_not.1 hmin
  rw [hd] at hfirst
  refine ⟨m + d, Nat.le_add_right m d, ?_, hbefore, hfirst⟩
  exact Nat.lt_of_not_le fun hle => hn (hbefore n hmn hle)
/-- How many steps of a kind the run takes from `m` up to `n`. -/
def Run.taken (A : α → Prop) [DecidablePred A] (m n : Nat) : Nat :=
  Nat.count (fun i => A (r.act i)) n - Nat.count (fun i => A (r.act i)) m

section Taken

variable {A : α → Prop} [DecidablePred A] {m n : Nat}

theorem Run.taken_self : r.taken A m m = 0 := Nat.sub_self _

theorem Run.taken_succ (hmn : m ≤ n) :
    r.taken A m (n + 1) = r.taken A m n + if A (r.act n) then 1 else 0 := by
  have hmono := Nat.count_monotone (fun i => A (r.act i)) hmn
  rw [Run.taken, Run.taken, Nat.count_succ]
  omega

/-- While `P` holds there is something left of `μ`, and every step of the kind
uses up some of it: so `P` comes to its end. -/
theorem Run.exists_exit (P : σ → Prop) (μ : σ → Nat) (hmn : m ≤ n)
    (hstep : ∀ i, m ≤ i → i < n → P (r.state i) → P (r.state (i + 1)) →
      μ (r.state (i + 1)) + (if A (r.act i) then 1 else 0) ≤ μ (r.state i))
    (hpos : P (r.state n) → 0 < μ (r.state n))
    (htaken : μ (r.state m) ≤ r.taken A m n) :
    ∃ t, m ≤ t ∧ t ≤ n ∧ ¬ P (r.state t) := by
  by_contra hall
  push Not at hall
  have hleft : ∀ k, m ≤ k → k ≤ n →
      μ (r.state k) + r.taken A m k ≤ μ (r.state m) := by
    intro k hmk
    induction k, hmk using Nat.le_induction with
    | base =>
        intro _
        rw [r.taken_self]
        exact Nat.le_refl _
    | succ k hmk ih =>
        intro hkn
        have hone := hstep k hmk hkn (hall k hmk (Nat.le_of_succ_le hkn))
          (hall (k + 1) (Nat.le_succ_of_le hmk) hkn)
        have hbefore := ih (Nat.le_of_succ_le hkn)
        rw [r.taken_succ hmk]
        omega
  have hend := hleft n hmn (Nat.le_refl n)
  have hrest := hpos (hall n hmn (Nat.le_refl n))
  omega

end Taken

end Bucktoot.Verified.StepSystem
