import Mathlib.Logic.Relation

/-!
# Unbounded loops as fuelled iteration

A C loop `while(1){ ... }` has no measure of its own: whether it ends is a
property to be proved, not a reason to reject the definition.  This module
gives such a loop the meaning "run the body until it leaves" by fuel, and
supplies the rules by which a loop is reasoned about:

* `returns_iff_reaches` — a loop returns `r` exactly when some state reached
  by going round leaves with `r`;
* `returns_invariant` — an invariant of the passes holds of every result;
* `not_terminates_of_trap` — a set of states that no pass can leave is a proof
  that the loop never returns;
* `search_reaches`, `terminates_hits` — a loop that only moves on until a
  target comes up is at the first hit of the target along the move, and
  terminates only if there is one.

Nothing here mentions a particular program.
-/

namespace Bucktoot.Verified.WhileLoop

/-- What one pass through a loop body does: go round again in a new state, or
leave the loop with a result. -/
inductive Outcome (σ ρ : Type*) where
  | again (s : σ)
  | leave (r : ρ)

variable {σ ρ : Type*}

/-- At most `fuel` passes through `body`. -/
def run (body : σ → Outcome σ ρ) : Nat → σ → Option ρ
  | 0, _ => none
  | fuel + 1, s =>
      match body s with
      | .again s' => run body fuel s'
      | .leave r => some r

/-- The loop started in `s` leaves with `r` after finitely many passes. -/
def Returns (body : σ → Outcome σ ρ) (s : σ) (r : ρ) : Prop :=
  ∃ fuel, run body fuel s = some r

/-- The loop started in `s` leaves after finitely many passes. -/
def Terminates (body : σ → Outcome σ ρ) (s : σ) : Prop :=
  ∃ r, Returns body s r

/-- One completed pass that goes round again. -/
def Pass (body : σ → Outcome σ ρ) (s s' : σ) : Prop :=
  body s = .again s'

/-- The states that going round again can reach. -/
abbrev Reaches (body : σ → Outcome σ ρ) : σ → σ → Prop :=
  Relation.ReflTransGen (Pass body)

theorem run_succ_again {body : σ → Outcome σ ρ} {s s' : σ}
    (h : body s = .again s') (fuel : Nat) :
    run body (fuel + 1) s = run body fuel s' := by
  simp only [run, h]

theorem run_succ_leave {body : σ → Outcome σ ρ} {s : σ} {r : ρ}
    (h : body s = .leave r) (fuel : Nat) :
    run body (fuel + 1) s = some r := by
  simp only [run, h]

/-- A pass neither creates nor destroys a result. -/
theorem returns_again_iff {body : σ → Outcome σ ρ} {s s' : σ}
    (h : body s = .again s') (r : ρ) :
    Returns body s r ↔ Returns body s' r := by
  constructor
  · rintro ⟨fuel, hf⟩
    cases fuel with
    | zero => simp [run] at hf
    | succ fuel => exact ⟨fuel, by rw [← run_succ_again h]; exact hf⟩
  · rintro ⟨fuel, hf⟩
    exact ⟨fuel + 1, by rw [run_succ_again h]; exact hf⟩

theorem returns_leave_iff {body : σ → Outcome σ ρ} {s : σ} {r : ρ}
    (h : body s = .leave r) (r' : ρ) :
    Returns body s r' ↔ r = r' := by
  constructor
  · rintro ⟨fuel, hf⟩
    cases fuel with
    | zero => simp [run] at hf
    | succ fuel =>
        rw [run_succ_leave h] at hf
        exact Option.some.inj hf
  · rintro rfl
    exact ⟨1, run_succ_leave h 0⟩

theorem returns_reaches_iff {body : σ → Outcome σ ρ} {s s' : σ}
    (h : Reaches body s s') (r : ρ) :
    Returns body s r ↔ Returns body s' r := by
  induction h with
  | refl => rfl
  | tail _ hlast ih => exact ih.trans (returns_again_iff hlast r)

theorem terminates_reaches_iff {body : σ → Outcome σ ρ} {s s' : σ}
    (h : Reaches body s s') :
    Terminates body s ↔ Terminates body s' :=
  exists_congr (returns_reaches_iff h)

/-- **Results are exits.**  The loop returns `r` exactly when some state it
reaches leaves with `r`. -/
theorem returns_iff_reaches (body : σ → Outcome σ ρ) (s : σ) (r : ρ) :
    Returns body s r ↔ ∃ s', Reaches body s s' ∧ body s' = .leave r := by
  constructor
  · rintro ⟨fuel, hf⟩
    induction fuel generalizing s with
    | zero => simp [run] at hf
    | succ fuel ih =>
        cases hb : body s with
        | again s' =>
            rw [run_succ_again hb] at hf
            obtain ⟨t, ht, hleave⟩ := ih s' hf
            exact ⟨t, .head hb ht, hleave⟩
        | leave r' =>
            rw [run_succ_leave hb] at hf
            obtain rfl := Option.some.inj hf
            exact ⟨s, .refl, hb⟩
  · rintro ⟨t, ht, hleave⟩
    exact (returns_reaches_iff ht r).2 ((returns_leave_iff hleave r).2 rfl)

theorem returns_unique {body : σ → Outcome σ ρ} {s : σ} {r r' : ρ}
    (h : Returns body s r) (h' : Returns body s r') : r = r' := by
  obtain ⟨t, ht, hleave⟩ := (returns_iff_reaches body s r).1 h
  exact (returns_leave_iff hleave r').1 ((returns_reaches_iff ht r').1 h')

/-- An invariant of the passes holds in every state the loop reaches. -/
theorem reaches_invariant {body : σ → Outcome σ ρ} (Inv : σ → Prop)
    (hpass : ∀ s s', Inv s → body s = .again s' → Inv s')
    {s s' : σ} (hs : Inv s) (h : Reaches body s s') : Inv s' := by
  induction h with
  | refl => exact hs
  | tail _ hlast ih => exact hpass _ _ ih hlast

/-- **Partial correctness.**  What every exit from the invariant guarantees
holds of every result. -/
theorem returns_invariant {body : σ → Outcome σ ρ} (Inv : σ → Prop)
    (Post : ρ → Prop)
    (hpass : ∀ s s', Inv s → body s = .again s' → Inv s')
    (hexit : ∀ s r, Inv s → body s = .leave r → Post r)
    {s : σ} (hs : Inv s) {r : ρ} (h : Returns body s r) : Post r := by
  obtain ⟨t, ht, hleave⟩ := (returns_iff_reaches body s r).1 h
  exact hexit t r (reaches_invariant Inv hpass hs ht) hleave

/-- **Divergence.**  A loop that starts in a set of states which every pass
stays in never returns. -/
theorem not_terminates_of_trap {body : σ → Outcome σ ρ} (Trap : σ → Prop)
    (htrap : ∀ s, Trap s → ∃ s', body s = .again s' ∧ Trap s')
    {s : σ} (hs : Trap s) : ¬ Terminates body s := by
  rintro ⟨r, hr⟩
  refine returns_invariant Trap (fun _ => False) ?_ ?_ hs hr
  · intro t t' ht hb
    obtain ⟨u, hu, htu⟩ := htrap t ht
    rw [hb] at hu
    cases hu
    exact htu
  · intro t r' ht hb
    obtain ⟨u, hu, _⟩ := htrap t ht
    rw [hb] at hu
    cases hu

/-! ## Searching

Many loops do nothing but move on until something comes up.  The target and
the move are stated on a view `π` of the loop state, so that what the loop
searches can be described without the state it carries along.
-/

section Search

variable {γ : Type*} {target : γ → Prop} {next : γ → γ}

/-- `c'` comes up when moving on from `c` past everything off target. -/
def Passing (target : γ → Prop) (next : γ → γ) : γ → γ → Prop :=
  Relation.ReflTransGen (fun a b => ¬ target a ∧ b = next a)

/-- `c'` is the first target that comes up when moving on from `c`. -/
def FirstHit (target : γ → Prop) (next : γ → γ) (c c' : γ) : Prop :=
  Passing target next c c' ∧ target c'

theorem FirstHit.here {c : γ} (h : target c) : FirstHit target next c c :=
  ⟨.refl, h⟩

theorem FirstHit.later {c c' : γ} (h : ¬ target c)
    (h' : FirstHit target next (next c) c') : FirstHit target next c c' :=
  ⟨.head ⟨h, rfl⟩ h'.1, h'.2⟩

/-- Nothing comes up behind a target. -/
theorem Passing.eq_of_target {c c' : γ} (h : Passing target next c c')
    (hc : target c) : c' = c := by
  cases Relation.ReflTransGen.cases_head h with
  | inl heq => exact heq.symm
  | inr hstep =>
      obtain ⟨_, hstep, _⟩ := hstep
      exact absurd hc hstep.1

/-- There is only one first hit. -/
theorem FirstHit.unique {c a b : γ} (ha : FirstHit target next c a)
    (hb : FirstHit target next c b) : a = b := by
  obtain ⟨ha, hta⟩ := ha
  induction ha using Relation.ReflTransGen.head_induction_on with
  | refl => exact (hb.1.eq_of_target hta).symm
  | head hstep _ ih =>
      obtain ⟨hoff, rfl⟩ := hstep
      rcases Relation.ReflTransGen.cases_head hb.1 with rfl | ⟨_, hstep, hrest⟩
      · exact absurd hb.2 hoff
      · obtain ⟨_, rfl⟩ := hstep
        exact ih ⟨hrest, hb.2⟩

variable {body : σ → Outcome σ ρ} (π : σ → γ) (Inv : σ → Prop)

/-- A search gets to the first hit. -/
theorem search_reaches
    (hpass : ∀ s, Inv s → ¬ target (π s) →
      ∃ s', body s = .again s' ∧ Inv s' ∧ π s' = next (π s))
    {s : σ} (hs : Inv s) {c : γ} (h : FirstHit target next (π s) c) :
    ∃ s', Reaches body s s' ∧ Inv s' ∧ π s' = c := by
  obtain ⟨hpassing, -⟩ := h
  induction hpassing with
  | refl => exact ⟨s, .refl, hs, rfl⟩
  | tail _ hlast ih =>
      obtain ⟨t, ht, htinv, hπ⟩ := ih
      obtain ⟨hoff, rfl⟩ := hlast
      obtain ⟨t', hb, htinv', hπ'⟩ := hpass t htinv (by rw [hπ]; exact hoff)
      exact ⟨t', ht.tail hb, htinv', by rw [hπ', hπ]⟩

/-- A search that terminates has come to a hit. -/
theorem terminates_hits
    (hpass : ∀ s, Inv s → ¬ target (π s) →
      ∃ s', body s = .again s' ∧ Inv s' ∧ π s' = next (π s))
    {s : σ} (hs : Inv s) (h : Terminates body s) :
    ∃ s', Reaches body s s' ∧ Inv s' ∧ FirstHit target next (π s) (π s') := by
  obtain ⟨r, fuel, hf⟩ := h
  induction fuel generalizing s with
  | zero => simp [run] at hf
  | succ fuel ih =>
      by_cases htarget : target (π s)
      · exact ⟨s, .refl, hs, .here htarget⟩
      · obtain ⟨t, hb, htinv, hπ⟩ := hpass s hs htarget
        rw [run_succ_again hb] at hf
        obtain ⟨s', hreach, hinv', hhit⟩ := ih htinv hf
        rw [hπ] at hhit
        exact ⟨s', .head hb hreach, hinv', .later htarget hhit⟩

end Search

end Bucktoot.Verified.WhileLoop
