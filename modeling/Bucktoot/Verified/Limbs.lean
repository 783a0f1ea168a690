import Mathlib.Data.Nat.ModEq
import Mathlib.Tactic.Linarith
import Mathlib.Tactic.Ring

/-!
# Words of two limbs

A word of twice the width is the pair of its halves, and it is divided half by
half.

* `low`, `high` — the halves; `pack_halves` puts them together again;
* `shiftLeft_pack`, `ushiftRight_pack`, `sshiftRight_pack` and `…_word` — a
  shift moves bits between the halves, or whole halves;
* `div_limbs`, `mod_limbs` — division by one limb, digit by digit;
* `trial_le`, `trial_gt` — the digit of a division by two limbs that the upper
  limb alone suggests, and its correction.
-/

namespace Bucktoot.Verified.Limbs

/-! ## Halves -/

section Halves

variable {w : Nat}

/-- The lower half. -/
def low (x : BitVec (w + w)) : BitVec w := x.setWidth w

/-- The upper half. -/
def high (x : BitVec (w + w)) : BitVec w := x.extractLsb' w w

theorem toNat_low (x : BitVec (w + w)) : (low x).toNat = x.toNat % 2 ^ w :=
  BitVec.toNat_setWidth ..

theorem toNat_high (x : BitVec (w + w)) : (high x).toNat = x.toNat / 2 ^ w := by
  rw [high, BitVec.extractLsb'_toNat, Nat.shiftRight_eq_div_pow]
  refine Nat.mod_eq_of_lt (Nat.div_lt_of_lt_mul ?_)
  rw [← Nat.pow_add]
  exact x.isLt

theorem toNat_pack (h l : BitVec w) :
    (h ++ l).toNat = h.toNat * 2 ^ w + l.toNat := by
  rw [BitVec.toNat_append, ← Nat.shiftLeft_add_eq_or_of_lt l.isLt,
    Nat.shiftLeft_eq]

theorem pack_halves (x : BitVec (w + w)) : high x ++ low x = x := by
  apply BitVec.eq_of_toNat_eq
  rw [toNat_pack, toNat_high, toNat_low]
  exact Nat.div_add_mod' ..

theorem toNat_halves (x : BitVec (w + w)) :
    (high x).toNat * 2 ^ w + (low x).toNat = x.toNat := by
  rw [← toNat_pack, pack_halves]

theorem low_pack (h l : BitVec w) : low (h ++ l) = l := by
  apply BitVec.eq_of_toNat_eq
  rw [toNat_low, toNat_pack, Nat.mul_add_mod', Nat.mod_eq_of_lt l.isLt]

theorem high_pack (h l : BitVec w) : high (h ++ l) = h := by
  apply BitVec.eq_of_toNat_eq
  rw [toNat_high, toNat_pack, Nat.mul_comm,
    Nat.mul_add_div (Nat.two_pow_pos w), Nat.div_eq_of_lt l.isLt, Nat.add_zero]

/-! ## Shifts -/

theorem shiftLeft_pack (h l : BitVec w) {k : Nat} (hk : k ≤ w) :
    ((h <<< k) ||| (l >>> (w - k))) ++ (l <<< k) = (h ++ l) <<< k := by
  apply BitVec.eq_of_getLsbD_eq
  intro i hi
  simp only [BitVec.getLsbD_append, BitVec.getLsbD_or, BitVec.getLsbD_shiftLeft,
    BitVec.getLsbD_ushiftRight]
  by_cases hlow : i < w
  · by_cases hin : i < k
    · simp [hlow, hin]
    · have hl : i - k < w := by omega
      simp [hlow, hin, hl, hi]
  · have hbit : ¬ i < k := by omega
    by_cases hin : i - w < k
    · have hl : i - k < w := by omega
      have hat : w - k + (i - w) = i - k := by omega
      simp [hlow, hin, hl, hbit, hat, hi]
    · have hl : ¬ i - k < w := by omega
      have hat : i - w - k = i - k - w := by omega
      have hinside : i - w < w := by omega
      have hend := BitVec.getLsbD_of_ge l (w - k + (i - w)) (by omega)
      simp [hlow, hin, hl, hbit, hat, hinside, hend, hi]

theorem ushiftRight_pack (h l : BitVec w) {k : Nat} (hk : k ≤ w) :
    (h >>> k) ++ ((h <<< (w - k)) ||| (l >>> k)) = (h ++ l) >>> k := by
  apply BitVec.eq_of_getLsbD_eq
  intro i hi
  simp only [BitVec.getLsbD_append, BitVec.getLsbD_or, BitVec.getLsbD_shiftLeft,
    BitVec.getLsbD_ushiftRight]
  by_cases hlow : i < w
  · by_cases hl : k + i < w
    · have hshort : i < w - k := by omega
      simp [hlow, hl, hshort]
    · have hlong : ¬ i < w - k := by omega
      have hat : i - (w - k) = k + i - w := by omega
      have hend := BitVec.getLsbD_of_ge l (k + i) (Nat.not_lt.1 hl)
      simp [hlow, hl, hlong, hat, hend]
  · have hhigh : ¬ k + i < w := by omega
    have hat : k + (i - w) = k + i - w := by omega
    simp [hlow, hhigh, hat]

theorem sshiftRight_pack (h l : BitVec w) {k : Nat} (hk : k < w) :
    (h.sshiftRight k) ++ ((h <<< (w - k)) ||| (l >>> k)) =
      (h ++ l).sshiftRight k := by
  have hw : w ≠ 0 := by omega
  apply BitVec.eq_of_getLsbD_eq
  intro i hi
  have hin : ¬ w + w ≤ i := Nat.not_le.2 hi
  simp only [BitVec.getLsbD_append, BitVec.getLsbD_or, BitVec.getLsbD_shiftLeft,
    BitVec.getLsbD_ushiftRight, BitVec.getLsbD_sshiftRight, BitVec.msb_append, hw]
  by_cases hlow : i < w
  · have hinside : k + i < w + w := by omega
    by_cases hl : k + i < w
    · have hshort : i < w - k := by omega
      simp [hlow, hl, hshort, hin, hinside]
    · have hlong : ¬ i < w - k := by omega
      have hat : i - (w - k) = k + i - w := by omega
      have hend := BitVec.getLsbD_of_ge l (k + i) (Nat.not_lt.1 hl)
      simp [hlow, hl, hlong, hat, hend, hin, hinside]
  · have hhigh : ¬ k + i < w := by omega
    have hat : k + (i - w) = k + i - w := by omega
    have hinside : ¬ w ≤ i - w := by omega
    have hend : (k + i < w + w) ↔ (k + i - w < w) := by omega
    simp [hlow, hhigh, hat, hin, hinside, hend]

theorem shiftLeft_pack_word (h l : BitVec w) {k : Nat} (hk : w ≤ k) :
    (l <<< (k - w)) ++ (0#w) = (h ++ l) <<< k := by
  apply BitVec.eq_of_getLsbD_eq
  intro i hi
  simp only [BitVec.getLsbD_append, BitVec.getLsbD_shiftLeft]
  by_cases hlow : i < w
  · have hin : i < k := by omega
    simp [hlow, hin]
  · by_cases hin : i < k
    · have hzero : i - w < k - w := by omega
      simp [hlow, hin, hzero]
    · have hl : i - k < w := by omega
      have hbit : ¬ i - w < k - w := by omega
      have hat : i - w - (k - w) = i - k := by omega
      have hinside : i - w < w := by omega
      simp [hlow, hin, hl, hbit, hat, hinside, hi]

theorem ushiftRight_pack_word (h l : BitVec w) {k : Nat} (hk : w ≤ k) :
    (0#w) ++ (h >>> (k - w)) = (h ++ l) >>> k := by
  apply BitVec.eq_of_getLsbD_eq
  intro i hi
  have hhigh : ¬ k + i < w := by omega
  simp only [BitVec.getLsbD_append, BitVec.getLsbD_ushiftRight]
  by_cases hlow : i < w
  · have hat : k - w + i = k + i - w := by omega
    simp [hlow, hhigh, hat]
  · have hend := BitVec.getLsbD_of_ge h (k + i - w) (by omega)
    simp [hlow, hhigh, hend]

/-- A shift that takes in nothing but the sign. -/
theorem sshiftRight_sign (x : BitVec w) {k : Nat} (hk : w - 1 ≤ k) :
    x.sshiftRight k = x.sshiftRight (w - 1) := by
  have hmsb := x.msb_eq_getLsbD_last
  have hbits (n : Nat) (hn : w - 1 ≤ n) : x.sshiftRight n =
      if x.msb = true then BitVec.allOnes w else 0 := by
    apply BitVec.eq_of_getLsbD_eq
    intro i hi
    rw [BitVec.getLsbD_sshiftRight]
    by_cases hin : n + i < w
    · have hlast : n + i = w - 1 := by omega
      rw [if_pos hin, hlast, ← hmsb]
      cases x.msb <;> simp [hi]
    · rw [if_neg hin]
      cases x.msb <;> simp [hi]
  rw [hbits k hk, hbits (w - 1) (Nat.le_refl _)]

theorem sshiftRight_pack_word (h l : BitVec w) {k : Nat} (hk : w ≤ k) :
    (h.sshiftRight (w - 1)) ++ (h.sshiftRight (k - w)) =
      (h ++ l).sshiftRight k := by
  apply BitVec.eq_of_getLsbD_eq
  intro i hi
  have hw : w ≠ 0 := by omega
  have hin : ¬ w + w ≤ i := Nat.not_le.2 hi
  have hhigh : ¬ k + i < w := by omega
  simp only [BitVec.getLsbD_append, BitVec.getLsbD_sshiftRight, BitVec.msb_append, hw]
  by_cases hlow : i < w
  · have hat : k - w + i = k + i - w := by omega
    have hinside : ¬ w ≤ i := Nat.not_le.2 hlow
    have hend : (k + i < w + w) ↔ (k + i - w < w) := by omega
    simp [hlow, hhigh, hat, hin, hinside, hend]
  · have hout : ¬ k + i < w + w := by omega
    have hinside : ¬ w ≤ i - w := by omega
    by_cases hfirst : i = w
    · have hlast : w - 1 < w := by omega
      simp [hfirst, hlast, hw, BitVec.msb_eq_getLsbD_last, show ¬ k < w by omega]
    · have hbeyond : ¬ w - 1 + (i - w) < w := by omega
      simp [hlow, hout, hin, hinside, hbeyond]

end Halves

/-! ## Division -/

section Division

variable (n2 n1 n0 d1 d0 B : Nat)

theorem limbs_split :
    n1 * B + n0 = d1 * (n1 / d1 * B) + (n1 % d1 * B + n0) := by
  conv_lhs => rw [← Nat.div_add_mod n1 d1]
  ring

theorem div_limbs :
    (n1 * B + n0) / d1 = n1 / d1 * B + (n1 % d1 * B + n0) / d1 := by
  obtain rfl | hd := Nat.eq_zero_or_pos d1
  · simp
  · rw [limbs_split n1 n0 d1 B, Nat.mul_add_div hd]

theorem mod_limbs : (n1 * B + n0) % d1 = (n1 % d1 * B + n0) % d1 := by
  rw [limbs_split n1 n0 d1 B, Nat.mul_add_mod]

theorem pack_mod {l B : Nat} (x : Nat) (hl : l < B) :
    (x * B + l) % (B * B) = x % B * B + l := by
  have hB : 0 < B := Nat.zero_lt_of_lt hl
  rw [Nat.mod_mul, Nat.mul_add_mod', Nat.mod_eq_of_lt hl, Nat.mul_comm x,
    Nat.mul_add_div hB, Nat.div_eq_of_lt hl, Nat.add_zero, Nat.mul_comm B,
    Nat.add_comm]

variable {n2 n1 n0 d1 d0 B} {q r : Nat}

/-- The upper limb of the divisor alone gives a digit that is not too small. -/
theorem trial_le (hdigit : d1 * q + r = n2 * B + n1) (hr : r < d1) (hn0 : n0 < B)
    (hfits : q * d0 ≤ r * B + n0) :
    ((n2 * B + n1) * B + n0) / (d1 * B + d0) = q ∧
      ((n2 * B + n1) * B + n0) % (d1 * B + d0) = r * B + n0 - q * d0 := by
  have hroom : (r + 1) * B ≤ d1 * B := Nat.mul_le_mul_right B hr
  have hpos : 0 < d1 * B + d0 := by
    rw [Nat.succ_mul] at hroom
    omega
  refine (Nat.div_mod_unique hpos).2 ⟨?_, ?_⟩
  · zify [hfits] at hdigit ⊢
    rw [← hdigit]
    ring
  · rw [Nat.succ_mul] at hroom
    omega

/-- Where it is too large and too large by one only, it is corrected by adding
the divisor back. -/
theorem trial_gt (hdigit : d1 * q + r = n2 * B + n1)
    (hover : r * B + n0 < q * d0)
    (hone : q * d0 ≤ r * B + n0 + (d1 * B + d0)) :
    ((n2 * B + n1) * B + n0) / (d1 * B + d0) = q - 1 ∧
      ((n2 * B + n1) * B + n0) % (d1 * B + d0) =
        r * B + n0 + (d1 * B + d0) - q * d0 := by
  have hq : 1 ≤ q := by
    by_contra hq
    rw [Nat.lt_one_iff.1 (Nat.not_le.1 hq), Nat.zero_mul] at hover
    omega
  have hpos : 0 < d1 * B + d0 := by omega
  refine (Nat.div_mod_unique hpos).2 ⟨?_, by omega⟩
  zify [hone, hq] at hdigit ⊢
  rw [← hdigit]
  ring

/-- With a divisor that has been shifted to the left by `s`, far enough for its
upper limb to be half of the base, it is too large by one at most. -/
theorem trial_one {s : Nat} (hdigit : d1 * q + r = n2 * B + n1) (hn1 : n1 < B)
    (hn2 : n2 < s) (hshift : d0 + s ≤ B) (hhalf : B ≤ 2 * d1) :
    q * d0 ≤ d1 * B := by
  have hd1 : 0 < d1 := by omega
  have hsquare : s * d0 ≤ d1 * d1 := by
    zify at hshift hhalf ⊢
    nlinarith [sq_nonneg ((s : ℤ) - d0)]
  have hnum : q * d1 ≤ s * B := by
    have hroom : (n2 + 1) * B ≤ s * B := Nat.mul_le_mul_right B hn2
    rw [Nat.succ_mul] at hroom
    rw [Nat.mul_comm q]
    omega
  refine Nat.le_of_mul_le_mul_right ?_ hd1
  calc q * d0 * d1 = q * d1 * d0 := by ring
    _ ≤ s * B * d0 := Nat.mul_le_mul_right d0 hnum
    _ = s * d0 * B := by ring
    _ ≤ d1 * d1 * B := Nat.mul_le_mul_right B hsquare
    _ = d1 * B * d1 := by ring

end Division

end Bucktoot.Verified.Limbs
