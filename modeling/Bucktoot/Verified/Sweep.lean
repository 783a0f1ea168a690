import Mathlib.Data.List.Basic

/-!
# A loop over a table that is in the middle of its work

A loop goes through the slots of a table from the front and may write to the
slot it stands at.  `sweep f k table` is the table the loop will leave behind
when it stands in front of slot `k` and what it does to the slots from there
on is `f`.  What `f` does to the first of these slots is one pass of the loop;
the lemmas say that such a pass does not change where the loop will end.
-/

namespace Bucktoot.Verified.Sweep

variable {α : Type*}

/-- The slots in front of `k` as they are, and `f` for the others. -/
def sweep (f : List α → List α) (k : Nat) (table : List α) : List α :=
  table.take k ++ f (table.drop k)

variable {f : List α → List α} {k : Nat} {table : List α} {x : α}

/-- Behind the last slot. -/
theorem sweep_end (hnil : f [] = []) (h : table[k]? = none) :
    sweep f k table = table := by
  have hlen := List.getElem?_eq_none_iff.1 h
  rw [sweep, List.drop_eq_nil_of_le hlen, hnil, List.append_nil,
    List.take_of_length_le hlen]

/-- In front of a slot. -/
theorem sweep_slot (f : List α → List α) (h : table[k]? = some x) :
    sweep f k table = table.take k ++ f (x :: table.drop (k + 1)) := by
  obtain ⟨hlt, rfl⟩ := List.getElem?_eq_some_iff.1 h
  rw [sweep, List.drop_eq_getElem_cons hlt]

/-- Behind a slot that was left alone. -/
theorem sweep_skip (f : List α → List α) (h : table[k]? = some x) :
    sweep f (k + 1) table = table.take k ++ x :: f (table.drop (k + 1)) := by
  obtain ⟨hlt, rfl⟩ := List.getElem?_eq_some_iff.1 h
  rw [sweep, List.take_succ_eq_append_getElem hlt, List.append_assoc]
  rfl

/-- Behind a slot that was written to. -/
theorem sweep_set (f : List α → List α) (h : table[k]? = some x) (y : α) :
    sweep f (k + 1) (table.set k y) =
      table.take k ++ y :: f (table.drop (k + 1)) := by
  have hlt := (List.getElem?_eq_some_iff.1 h).1
  have hy : (table.set k y)[k]? = some y := List.getElem?_set_self hlt
  rw [sweep_skip f hy, List.take_set_of_le (Nat.le_refl k),
    List.drop_set_of_lt (Nat.lt_succ_self k)]

/-- The table with a slot written to. -/
theorem set_eq_sweep (h : table[k]? = some x) (y : α) :
    table.set k y = table.take k ++ y :: table.drop (k + 1) := by
  have hset := sweep_set id h y
  rw [sweep, id, List.take_append_drop] at hset
  exact hset

end Bucktoot.Verified.Sweep
