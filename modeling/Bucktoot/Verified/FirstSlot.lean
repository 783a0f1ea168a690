import Mathlib.Data.List.Basic

/-!
# Taking the first free slot of a table

The loop `for(i=0;i<count;i++){ if(free(t[i])){ t[i]=x; break; } }` writes at
most one slot, the first one that is free.  `fillFirst` is that loop;
`fillFirst_of_isFirst` and `fillFirst_of_full` say what it does in terms of
positions, which is how a client reasons about a table.
-/

namespace Bucktoot.Verified.FirstSlot

variable {α : Type*} (free : α → Prop)

/-- Write `x` to the first free slot, if there is one. -/
def fillFirst [DecidablePred free] (x : α) : List α → List α
  | [] => []
  | a :: rest => if free a then x :: rest else a :: fillFirst x rest

/-- Slot `i` of the table is free and no slot in front of it is. -/
def IsFirst (table : List α) (i : Nat) : Prop :=
  (∃ a, table[i]? = some a ∧ free a) ∧
    ∀ j < i, ∀ a, table[j]? = some a → ¬ free a

/-- No slot of the table is free. -/
def Full (table : List α) : Prop := ∀ (i : Nat) (a : α), table[i]? = some a → ¬ free a

variable {free}

theorem isFirst_zero {a : α} (rest : List α) (h : free a) :
    IsFirst free (a :: rest) 0 :=
  ⟨⟨a, rfl, h⟩, fun j hj => absurd hj (Nat.not_lt_zero j)⟩

theorem isFirst_succ {a : α} {rest : List α} (h : ¬ free a) {i : Nat} :
    IsFirst free (a :: rest) (i + 1) ↔ IsFirst free rest i := by
  constructor
  · rintro ⟨hfree, hfront⟩
    exact ⟨hfree, fun j hj b hb => hfront (j + 1) (by omega) b hb⟩
  · rintro ⟨hfree, hfront⟩
    refine ⟨hfree, ?_⟩
    intro j hj b hb
    cases j with
    | zero =>
        obtain rfl : a = b := Option.some.inj hb
        exact h
    | succ j => exact hfront j (by omega) b hb

theorem IsFirst.lt_length {table : List α} {i : Nat}
    (h : IsFirst free table i) : i < table.length := by
  obtain ⟨⟨a, ha, -⟩, -⟩ := h
  exact (List.getElem?_eq_some_iff.1 ha).1

/-- There is at most one first free slot. -/
theorem IsFirst.unique {table : List α} {i j : Nat}
    (hi : IsFirst free table i) (hj : IsFirst free table j) : i = j := by
  obtain ⟨⟨a, ha, hfa⟩, hfronti⟩ := hi
  obtain ⟨⟨b, hb, hfb⟩, hfrontj⟩ := hj
  rcases Nat.lt_trichotomy i j with hlt | heq | hgt
  · exact absurd hfa (hfrontj i hlt a ha)
  · exact heq
  · exact absurd hfb (hfronti j hgt b hb)

theorem Full.not_isFirst {table : List α} (h : Full free table) (i : Nat) :
    ¬ IsFirst free table i := by
  rintro ⟨⟨a, ha, hfree⟩, -⟩
  exact h i a ha hfree

variable [DecidablePred free]

variable (free) in
/-- A table is full or has a first free slot. -/
theorem full_or_isFirst (table : List α) :
    Full free table ∨ ∃ i, IsFirst free table i := by
  induction table with
  | nil => exact .inl (fun i a h => by simp at h)
  | cons a rest ih =>
      by_cases ha : free a
      · exact .inr ⟨0, isFirst_zero rest ha⟩
      · rcases ih with hfull | ⟨i, hi⟩
        · refine .inl ?_
          intro i b hb
          cases i with
          | zero =>
              obtain rfl : a = b := Option.some.inj hb
              exact ha
          | succ i => exact hfull i b hb
        · exact .inr ⟨i + 1, (isFirst_succ ha).2 hi⟩

/-- The loop writes to the first free slot and nowhere else. -/
theorem fillFirst_of_isFirst {table : List α} {i : Nat} (x : α)
    (h : IsFirst free table i) : fillFirst free x table = table.set i x := by
  induction table generalizing i with
  | nil => exact absurd h.lt_length (Nat.not_lt_zero i)
  | cons a rest ih =>
      by_cases ha : free a
      · obtain rfl := h.unique (isFirst_zero rest ha)
        rw [fillFirst, if_pos ha]
        rfl
      · cases i with
        | zero =>
            obtain ⟨⟨b, hb, hfree⟩, -⟩ := h
            obtain rfl : a = b := Option.some.inj hb
            exact absurd hfree ha
        | succ i =>
            rw [fillFirst, if_neg ha, ih ((isFirst_succ ha).1 h)]
            rfl

/-- The loop leaves a full table alone. -/
theorem fillFirst_of_full {table : List α} (x : α) (h : Full free table) :
    fillFirst free x table = table := by
  induction table with
  | nil => rfl
  | cons a rest ih =>
      rw [fillFirst, if_neg (h 0 a rfl), ih (fun i b hb => h (i + 1) b hb)]

/-- A slot after the loop: it is the first free one and holds `x`, or it holds
what it held before. -/
theorem fillFirst_slot {table : List α} {x a : α} {j : Nat}
    (h : (fillFirst free x table)[j]? = some a) :
    (IsFirst free table j ∧ a = x) ∨ table[j]? = some a := by
  rcases full_or_isFirst free table with hfull | ⟨i, hi⟩
  · rw [fillFirst_of_full x hfull] at h
    exact .inr h
  · rw [fillFirst_of_isFirst x hi] at h
    by_cases hij : i = j
    · rw [hij] at hi
      rw [hij, List.getElem?_set_self hi.lt_length] at h
      exact .inl ⟨hi, (Option.some.inj h).symm⟩
    · rw [List.getElem?_set_ne hij] at h
      exact .inr h

/-- A slot that is not free is not touched. -/
theorem fillFirst_keeps {table : List α} {a : α} {j : Nat} (x : α)
    (h : table[j]? = some a) (hfree : ¬ free a) :
    (fillFirst free x table)[j]? = some a := by
  rcases full_or_isFirst free table with hfull | ⟨i, hi⟩
  · rw [fillFirst_of_full x hfull]
    exact h
  · have hij : i ≠ j := by
      rintro rfl
      obtain ⟨⟨b, hb, hb'⟩, -⟩ := hi
      rw [h] at hb
      obtain rfl := Option.some.inj hb
      exact hfree hb'
    rw [fillFirst_of_isFirst x hi, List.getElem?_set_ne hij]
    exact h

/-- If there is a free slot, `x` gets one. -/
theorem exists_fillFirst {table : List α} (x : α) (h : ¬ Full free table) :
    ∃ j : Nat, (fillFirst free x table)[j]? = some x := by
  rcases full_or_isFirst free table with hfull | ⟨i, hi⟩
  · exact absurd hfull h
  · refine ⟨i, ?_⟩
    rw [fillFirst_of_isFirst x hi, List.getElem?_set_self hi.lt_length]

theorem length_fillFirst (x : α) (table : List α) :
    (fillFirst free x table).length = table.length := by
  rcases full_or_isFirst free table with hfull | ⟨i, hi⟩
  · rw [fillFirst_of_full x hfull]
  · rw [fillFirst_of_isFirst x hi, List.length_set]

end Bucktoot.Verified.FirstSlot
