import Mathlib

/-!
# Ranges that do not overlap

A table of ranges of a linear order is searched for the one that a value lies in.

* `Before`, `Apart` — the ranges of a sorted table, and of any;
* `pairwise_before_of_chain`, `pairwise_before_iff` — a sorted table needs a look
  at neighbours only;
* `Finds` — the answer of a search, and how it comes from a part of the table.
-/

namespace Bucktoot.Verified.Ranges

variable {ι α : Type*} [LinearOrder α] (lo hi : ι → α)

/-- The value lies in the range. -/
def Within (x : α) (p : ι) : Prop := lo p ≤ x ∧ x ≤ hi p

/-- The range ends before the other begins. -/
def Before (p q : ι) : Prop := hi p < lo q

/-- The ranges have no value in common. -/
def Apart (p q : ι) : Prop := Before lo hi p q ∨ Before lo hi q p

/-- The range has a value. -/
def Proper (p : ι) : Prop := lo p ≤ hi p

instance (x : α) (p : ι) : Decidable (Within lo hi x p) :=
  inferInstanceAs (Decidable (_ ∧ _))

instance (p q : ι) : Decidable (Apart lo hi p q) :=
  inferInstanceAs (Decidable (hi p < lo q ∨ hi q < lo p))

instance (p : ι) : Decidable (Proper lo hi p) := inferInstanceAs (Decidable (_ ≤ _))

variable {lo hi} {l r : List ι} {p q : ι} {x : α}

theorem apart_iff (hp : Proper lo hi p) (hq : Proper lo hi q) :
    Apart lo hi p q ↔ ∀ x, ¬ (Within lo hi x p ∧ Within lo hi x q) := by
  constructor
  · rintro (h | h) x ⟨hxp, hxq⟩
    · exact lt_irrefl x (lt_of_le_of_lt hxp.2 (lt_of_lt_of_le h hxq.1))
    · exact lt_irrefl x (lt_of_le_of_lt hxq.2 (lt_of_lt_of_le h hxp.1))
  · intro h
    by_contra hover
    obtain ⟨hpq, hqp⟩ := not_or.1 hover
    rcases le_total (lo p) (lo q) with hle | hle
    · exact h (lo q) ⟨⟨hle, not_lt.1 hpq⟩, ⟨le_refl _, hq⟩⟩
    · exact h (lo p) ⟨⟨le_refl _, hp⟩, ⟨hle, not_lt.1 hqp⟩⟩

theorem Apart.symm (h : Apart lo hi p q) : Apart lo hi q p := Or.symm h

instance : Std.Symm (Apart lo hi : ι → ι → Prop) := ⟨fun _ _ => Apart.symm⟩

/-- It is enough that neighbours do not overlap. -/
theorem pairwise_before_of_chain (hproper : ∀ p ∈ l, Proper lo hi p)
    (h : l.IsChain (Before lo hi)) : l.Pairwise (Before lo hi) := by
  induction l with
  | nil => exact List.Pairwise.nil
  | cons p l ih =>
      have hrest := ih (fun q hq => hproper q (List.mem_cons_of_mem p hq)) h.tail
      refine List.pairwise_cons.2 ⟨?_, hrest⟩
      intro r hr
      cases l with
      | nil => cases hr
      | cons q l =>
          have hpq : Before lo hi p q := (List.isChain_cons_cons.1 h).1
          rcases List.mem_cons.1 hr with rfl | hr
          · exact hpq
          · have hqr := (List.pairwise_cons.1 hrest).1 r hr
            have hq : Proper lo hi q := hproper q (by simp)
            exact lt_of_lt_of_le hpq (le_trans hq (le_of_lt hqr))

/-- A table sorted by the lower bounds. -/
theorem pairwise_before_iff (hproper : ∀ p ∈ l, Proper lo hi p)
    (hsorted : l.Pairwise fun p q => lo p ≤ lo q) :
    l.Pairwise (Before lo hi) ↔ l.Pairwise (Apart lo hi) := by
  induction l with
  | nil => exact ⟨fun _ => List.Pairwise.nil, fun _ => List.Pairwise.nil⟩
  | cons p l ih =>
      obtain ⟨hle, hrest⟩ := List.pairwise_cons.1 hsorted
      have hih := ih (fun q hq => hproper q (List.mem_cons_of_mem p hq)) hrest
      rw [List.pairwise_cons, List.pairwise_cons, hih]
      refine and_congr_left fun _ => forall₂_congr fun q hq => ?_
      constructor
      · exact Or.inl
      · rintro (h | h)
        · exact h
        · have hq' : Proper lo hi q := hproper q (List.mem_cons_of_mem p hq)
          exact absurd (lt_of_lt_of_le h (hle q hq)) (not_lt.2 hq')

/-- What a search for `x` gives. -/
def Finds (lo hi : ι → α) (x : α) (l : List ι) (r : Option ι) : Prop :=
  (∀ p, r = some p → p ∈ l ∧ Within lo hi x p) ∧
    (r = none → ∀ p ∈ l, ¬ Within lo hi x p)

variable {res : Option ι}

/-- Of ranges that are apart, a value is in one at most. -/
theorem Finds.eq_some (hapart : l.Pairwise (Apart lo hi))
    (hproper : ∀ p ∈ l, Proper lo hi p) (h : Finds lo hi x l res) (hp : p ∈ l)
    (hin : Within lo hi x p) : res = some p := by
  cases res with
  | none => exact absurd hin (h.2 rfl p hp)
  | some q =>
      obtain ⟨hq, hqin⟩ := h.1 q rfl
      by_contra hne
      have hqp : q ≠ p := fun h => hne (congrArg some h)
      exact (apart_iff (hproper q hq) (hproper p hp)).1 (hapart.forall hq hp hqp) x
        ⟨hqin, hin⟩

theorem Finds.eq_none (h : Finds lo hi x l res)
    (hout : ∀ p ∈ l, ¬ Within lo hi x p) : res = none := by
  cases res with
  | none => rfl
  | some q => exact absurd (h.1 q rfl).2 (hout q (h.1 q rfl).1)

theorem finds_nil (x : α) : Finds lo hi x [] none :=
  ⟨fun _ h => (Option.some_ne_none _ h.symm).elim, fun _ _ h => (List.not_mem_nil h).elim⟩

theorem finds_here (hp : p ∈ l) (h : Within lo hi x p) : Finds lo hi x l (some p) := by
  refine ⟨?_, fun h => by cases h⟩
  rintro q ⟨rfl⟩
  exact ⟨hp, h⟩

/-- The value is below the range: only the ranges before it count. -/
theorem finds_left (hl : (l ++ p :: r).Pairwise (Before lo hi))
    (hproper : Proper lo hi p) (hx : x < lo p) (h : Finds lo hi x l res) :
    Finds lo hi x (l ++ p :: r) res := by
  obtain ⟨-, hpr, -⟩ := List.pairwise_append.1 hl
  refine ⟨fun q hq => ⟨List.mem_append_left _ (h.1 q hq).1, (h.1 q hq).2⟩, ?_⟩
  intro hnone q hq hin
  rcases List.mem_append.1 hq with hq | hq
  · exact h.2 hnone q hq hin
  rcases List.mem_cons.1 hq with rfl | hq
  · exact absurd hin.1 (not_le.2 hx)
  · have hpq : Before lo hi p q := (List.pairwise_cons.1 hpr).1 q hq
    have hlt : x < lo q := lt_of_lt_of_le hx (le_trans hproper (le_of_lt hpq))
    exact absurd hin.1 (not_le.2 hlt)

/-- The value is above the range: only the ranges behind it count. -/
theorem finds_right (hl : (l ++ p :: r).Pairwise (Before lo hi))
    (hproper : Proper lo hi p) (hx : hi p < x) (h : Finds lo hi x r res) :
    Finds lo hi x (l ++ p :: r) res := by
  obtain ⟨-, -, hcross⟩ := List.pairwise_append.1 hl
  refine ⟨fun q hq => ⟨?_, (h.1 q hq).2⟩, ?_⟩
  · exact List.mem_append_right _ (List.mem_cons_of_mem p (h.1 q hq).1)
  intro hnone q hq hin
  rcases List.mem_append.1 hq with hq | hq
  · have hqp : Before lo hi q p := hcross q hq p (by simp)
    have hlt : hi q < x := lt_trans (lt_of_lt_of_le hqp hproper) hx
    exact absurd hin.2 (not_le.2 hlt)
  rcases List.mem_cons.1 hq with rfl | hq
  · exact absurd hin.2 (not_le.2 hx)
  · exact h.2 hnone q hq hin

/-- The value is not in the first range. -/
theorem finds_cons (hp : ¬ Within lo hi x p) (h : Finds lo hi x l res) :
    Finds lo hi x (p :: l) res := by
  refine ⟨fun q hq => ⟨List.mem_cons_of_mem p (h.1 q hq).1, (h.1 q hq).2⟩, ?_⟩
  intro hnone q hq
  rcases List.mem_cons.1 hq with rfl | hq
  · exact hp
  · exact h.2 hnone q hq

end Bucktoot.Verified.Ranges
