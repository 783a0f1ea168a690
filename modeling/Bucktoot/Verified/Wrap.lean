import Mathlib.Tactic.NormNum

/-!
# Signed 64-bit words that wrap

The value of an operation is the exact result as long as that fits.  For a
product that is divided afterwards nothing less will do: `toInt_mul_div_iff`.

Nothing here mentions a particular program.
-/

namespace Bucktoot.Verified.Wrap

/-- An integer that a signed 64-bit word can hold. -/
def Fits (n : Int) : Prop := -2 ^ 63 ≤ n ∧ n < 2 ^ 63

theorem bmod_of_fits {n : Int} (h : Fits n) : n.bmod (2 ^ 64) = n := by
  obtain ⟨hlow, hhigh⟩ := h
  apply Int.bmod_eq_of_le
  · norm_num
    omega
  · norm_num
    omega

theorem fits_toInt (a : Int64) : Fits a.toInt := ⟨a.le_toInt, a.toInt_lt⟩

theorem toInt_sub_of_fits {a b : Int64} (h : Fits (a.toInt - b.toInt)) :
    (a - b).toInt = a.toInt - b.toInt := by
  rw [Int64.toInt_sub, bmod_of_fits h]

theorem toInt_mul_of_fits {a b : Int64} (h : Fits (a.toInt * b.toInt)) :
    (a * b).toInt = a.toInt * b.toInt := by
  rw [Int64.toInt_mul, bmod_of_fits h]

theorem toInt_div_of_pos {a b : Int64} (hb : 0 < b.toInt) :
    (a / b).toInt = a.toInt.tdiv b.toInt := by
  apply Int64.toInt_div_of_ne_right
  rintro rfl
  revert hb
  decide

/-- A word that a product has wrapped to is too small by at least `2 ^ 64`. -/
theorem bmod_add_le {n : Int} (h : 2 ^ 63 ≤ n) :
    n.bmod (2 ^ 64) + 2 ^ 64 ≤ n := by
  have hlt : n.bmod (2 ^ 64) < 2 ^ 63 := by
    have := Int.bmod_lt (x := n) (m := 2 ^ 64) (by decide)
    omega
  have hsum := Int.bmod_add_bdiv n (2 ^ 64)
  omega

/-- A product of words is divided exactly if and only if it does not wrap. -/
theorem toInt_mul_div_iff {a b f : Int64} (ha : 0 ≤ a.toInt)
    (hb : 0 ≤ b.toInt) (hf : 0 < f.toInt) :
    (a * b / f).toInt = a.toInt * b.toInt / f.toInt ↔
      a.toInt * b.toInt < 2 ^ 63 := by
  have hnonneg : 0 ≤ a.toInt * b.toInt := Int.mul_nonneg ha hb
  rw [toInt_div_of_pos hf]
  constructor
  · intro heq
    apply Int.lt_of_not_ge
    intro hge
    have hf63 := f.toInt_lt
    have hle := bmod_add_le hge
    rw [← Int64.toInt_mul] at hle
    rcases Int.le_total 0 (a * b).toInt with hpos | hneg
    · -- the wrapped product is smaller by more than the divisor
      have hmore : ((a * b).toInt + 1 * f.toInt) / f.toInt ≤
          a.toInt * b.toInt / f.toInt := Int.ediv_le_ediv hf (by omega)
      rw [Int.add_mul_ediv_right _ _ hf.ne'] at hmore
      rw [Int.tdiv_eq_ediv_of_nonneg hpos] at heq
      omega
    · have hone : f.toInt / f.toInt ≤ a.toInt * b.toInt / f.toInt :=
        Int.ediv_le_ediv hf (by omega)
      rw [Int.ediv_self hf.ne'] at hone
      have hquot : 0 ≤ (-(a * b).toInt).tdiv f.toInt :=
        Int.tdiv_nonneg (by omega) hf.le
      rw [Int.neg_tdiv] at hquot
      omega
  · intro hlt
    rw [toInt_mul_of_fits ⟨by omega, hlt⟩, Int.tdiv_eq_ediv_of_nonneg hnonneg]

end Bucktoot.Verified.Wrap
