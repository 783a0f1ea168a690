import Mathlib.Algebra.Order.Ring.Int
import Mathlib.Tactic.Linarith

/-!
# Words that stand for integers

A word of `w` bits stands for every integer that differs from its value by a
multiple of `2 ^ w`.  An operation on words is the operation on such integers,
for divisions, shifts to the right and comparisons as long as the integers are
in the range that the operation reads its words in.

* `InRange` — the integers a word is read as, with and without a sign;
* `and_mask`, `or_neg_mask` — the lowest bits, without and with a sign;
* `ofInt_…` — one lemma for each operation.
-/

namespace Bucktoot.Verified.Words

variable {v w : Nat} {x y : Int}

/-- The integer fits a word of `w` bits. -/
def InRange (unsigned : Bool) (w : Nat) (x : Int) : Prop :=
  if unsigned then 0 ≤ x ∧ x < 2 ^ w else -2 ^ (w - 1) ≤ x ∧ x < 2 ^ (w - 1)

theorem inRange_unsigned : InRange true w x ↔ 0 ≤ x ∧ x < 2 ^ w := Iff.rfl

theorem inRange_signed :
    InRange false w x ↔ -2 ^ (w - 1) ≤ x ∧ x < 2 ^ (w - 1) := Iff.rfl

instance (unsigned : Bool) (w : Nat) (x : Int) : Decidable (InRange unsigned w x) :=
  match unsigned with
  | true => inferInstanceAs (Decidable (0 ≤ x ∧ x < 2 ^ w))
  | false => inferInstanceAs (Decidable (-2 ^ (w - 1) ≤ x ∧ x < 2 ^ (w - 1)))

theorem inRange_mono {unsigned : Bool} (hvw : v ≤ w) (h : InRange unsigned v x) :
    InRange unsigned w x := by
  cases unsigned with
  | true =>
      have hle : (2 : Int) ^ v ≤ 2 ^ w := pow_le_pow_right₀ (by decide) hvw
      exact ⟨h.1, lt_of_lt_of_le h.2 hle⟩
  | false =>
      have hle : (2 : Int) ^ (v - 1) ≤ 2 ^ (w - 1) :=
        pow_le_pow_right₀ (by decide) (by omega)
      have hlow := h.1
      have hhigh := h.2
      exact ⟨by omega, by omega⟩

theorem zero_inRange (unsigned : Bool) (w : Nat) : InRange unsigned w 0 := by
  have hpos : (0 : Int) < 2 ^ (w - 1) := pow_pos (by decide) _
  cases unsigned with
  | true => exact ⟨Int.le_refl 0, pow_pos (by decide) w⟩
  | false => exact ⟨by omega, hpos⟩

/-- The integer of a word of `w` bits that `x` comes out as. -/
def wrap (unsigned : Bool) (w : Nat) (x : Int) : Int :=
  if unsigned then x % 2 ^ w else x.bmod (2 ^ w)

theorem wrap_inRange (unsigned : Bool) (hw : 0 < w) (x : Int) :
    InRange unsigned w (wrap unsigned w x) := by
  cases unsigned with
  | true =>
      exact ⟨Int.emod_nonneg x (pow_ne_zero w (by decide)),
        Int.emod_lt_of_pos x (pow_pos (by decide) w)⟩
  | false =>
      have hpos : 0 < 2 ^ w := Nat.two_pow_pos w
      have hhalf : (2 ^ w : Nat) = 2 * 2 ^ (w - 1) := by
        rw [← pow_succ', Nat.sub_add_cancel hw]
      have hcast : ((2 ^ (w - 1) : Nat) : Int) = 2 ^ (w - 1) := by push_cast; rfl
      have hlow := Int.le_bmod (x := x) hpos
      have hhigh := Int.bmod_lt (x := x) hpos
      rw [hhalf] at hlow hhigh
      constructor
      · show -2 ^ (w - 1) ≤ x.bmod (2 ^ w)
        rw [hhalf]
        omega
      · show x.bmod (2 ^ w) < 2 ^ (w - 1)
        rw [hhalf]
        omega

/-! ## Reading a word -/

theorem toInt_ofInt (hw : 0 < w) (h : InRange false w x) :
    (BitVec.ofInt w x).toInt = x :=
  BitVec.toInt_ofInt_eq_self hw h.1 h.2

theorem toNat_ofInt (h : InRange true w x) :
    ((BitVec.ofInt w x).toNat : Int) = x := by
  have hmod : x % 2 ^ w = x := Int.emod_eq_of_lt h.1 h.2
  have hcast : ((2 ^ w : Nat) : Int) = 2 ^ w := by push_cast; rfl
  rw [BitVec.toNat_ofInt, hcast, hmod, Int.toNat_of_nonneg h.1]

theorem ofInt_eq_iff : BitVec.ofInt w x = BitVec.ofInt w y ↔ x % 2 ^ w = y % 2 ^ w := by
  have hcast : ((2 ^ w : Nat) : Int) = 2 ^ w := by push_cast; rfl
  have hpos : (2 : Int) ^ w ≠ 0 := pow_ne_zero w (by decide)
  rw [← BitVec.toNat_inj, BitVec.toNat_ofInt, BitVec.toNat_ofInt, hcast]
  have hx := Int.emod_nonneg x hpos
  have hy := Int.emod_nonneg y hpos
  omega

theorem ofInt_inj {unsigned : Bool} (hw : 0 < w) (hx : InRange unsigned w x)
    (hy : InRange unsigned w y) :
    BitVec.ofInt w x = BitVec.ofInt w y ↔ x = y := by
  constructor
  · intro h
    cases unsigned with
    | true => rw [← toNat_ofInt hx, h, toNat_ofInt hy]
    | false => rw [← toInt_ofInt hw hx, h, toInt_ofInt hw hy]
  · rintro rfl
    rfl

theorem ofInt_wrap (unsigned : Bool) (x : Int) :
    BitVec.ofInt w (wrap unsigned w x) = BitVec.ofInt w x := by
  rw [ofInt_eq_iff]
  cases unsigned with
  | true => exact Int.emod_emod_of_dvd x (dvd_refl _)
  | false =>
      have hcast : ((2 ^ w : Nat) : Int) = 2 ^ w := by push_cast; rfl
      have hmod := Int.bmod_emod (x := x) (m := 2 ^ w)
      rw [hcast] at hmod
      exact hmod

theorem wrap_of_inRange {unsigned : Bool} (hw : 0 < w)
    (h : InRange unsigned w x) : wrap unsigned w x = x :=
  (ofInt_inj hw (wrap_inRange unsigned hw x) h).1 (ofInt_wrap unsigned x)

/-! ## Another width -/

theorem ofInt_setWidth (h : v ≤ w) (x : Int) :
    (BitVec.ofInt w x).setWidth v = BitVec.ofInt v x := by
  have hdvd : (2 : Int) ^ v ∣ 2 ^ w := pow_dvd_pow 2 h
  have hpos : (2 : Int) ^ w ≠ 0 := pow_ne_zero w (by decide)
  have hcast (n : Nat) : ((2 ^ n : Nat) : Int) = 2 ^ n := by push_cast; rfl
  apply BitVec.eq_of_toNat_eq
  have hnat : ((x % 2 ^ w).toNat % 2 ^ v : Int) = x % 2 ^ v := by
    rw [Int.toNat_of_nonneg (Int.emod_nonneg x hpos), Int.emod_emod_of_dvd x hdvd]
  rw [BitVec.toNat_setWidth, BitVec.toNat_ofInt, BitVec.toNat_ofInt, hcast, hcast,
    ← hnat]
  norm_cast

theorem ofInt_zeroExtend (h : v ≤ w) (hx : InRange true v x) :
    (BitVec.ofInt v x).setWidth w = BitVec.ofInt w x := by
  have hwide := inRange_mono h hx
  apply BitVec.eq_of_toNat_eq
  have hsame : (BitVec.ofInt v x).toNat = (BitVec.ofInt w x).toNat := by
    have hv := toNat_ofInt hx
    have hw := toNat_ofInt hwide
    omega
  rw [BitVec.toNat_setWidth, hsame, Nat.mod_eq_of_lt (BitVec.isLt _)]

theorem ofInt_signExtend (hv : 0 < v) (h : v ≤ w) (hx : InRange false v x) :
    (BitVec.ofInt v x).signExtend w = BitVec.ofInt w x := by
  have hwide := inRange_mono h hx
  apply BitVec.eq_of_toInt_eq
  rw [BitVec.toInt_signExtend_of_le h, toInt_ofInt hv hx,
    toInt_ofInt (by omega) hwide]

theorem setWidth_signExtend (h : v ≤ w) (x : BitVec v) :
    (x.signExtend w).setWidth v = x := by
  apply BitVec.eq_of_getLsbD_eq
  intro i hi
  rw [BitVec.getLsbD_setWidth, BitVec.getLsbD_signExtend]
  simp [hi, Nat.lt_of_lt_of_le hi h]

/-- Only the lowest bits matter. -/
theorem wrap_congr {unsigned : Bool} (hw : 0 < w)
    (h : BitVec.ofInt w x = BitVec.ofInt w y) :
    wrap unsigned w x = wrap unsigned w y := by
  rw [← ofInt_inj hw (wrap_inRange _ hw x) (wrap_inRange _ hw y), ofInt_wrap,
    ofInt_wrap, h]

theorem wrap_wrap {u u' : Bool} (hv : 0 < v) (hvw : v ≤ w) (x : Int) :
    wrap u v (wrap u' w x) = wrap u v x := by
  refine wrap_congr hv ?_
  rw [← ofInt_setWidth hvw, ofInt_wrap, ofInt_setWidth hvw]

/-! ## The lowest bits -/

/-- The lowest `k` bits. -/
theorem and_mask {w k : Nat} (hk : k ≤ w) (x : BitVec w) :
    x &&& BitVec.ofNat w (2 ^ k - 1) = (x.setWidth k).setWidth w := by
  have hle : 2 ^ k ≤ 2 ^ w := Nat.pow_le_pow_right (by decide) hk
  have hpos := Nat.two_pow_pos k
  have hx : x.toNat % 2 ^ k < 2 ^ w :=
    Nat.lt_of_lt_of_le (Nat.mod_lt _ hpos) hle
  apply BitVec.eq_of_toNat_eq
  rw [BitVec.toNat_and, BitVec.toNat_ofNat, Nat.mod_eq_of_lt (by omega),
    Nat.and_two_pow_sub_one_eq_mod, BitVec.toNat_setWidth, BitVec.toNat_setWidth,
    Nat.mod_eq_of_lt hx]

theorem getLsbD_neg_twoPow {w i j : Nat} (hj : j < w) :
    (-(BitVec.twoPow w j)).getLsbD i = (decide (j ≤ i) && decide (i < w)) := by
  rw [BitVec.getLsbD_neg]
  have hsome : (∃ m < i, (BitVec.twoPow w j).getLsbD m = true) ↔ j < i := by
    simp only [BitVec.getLsbD_twoPow, hj, decide_true, Bool.true_and,
      decide_eq_true_eq]
    exact ⟨fun ⟨m, hm, h⟩ => h ▸ hm, fun h => ⟨j, h, rfl⟩⟩
  rw [BitVec.getLsbD_twoPow]
  simp only [hsome, hj, decide_true, Bool.true_and]
  rcases Nat.lt_trichotomy i j with h | h | h
  · simp [h.ne', Nat.not_le.2 h, Nat.lt_asymm h]
  · subst h
    simp [hj]
  · simp [h.ne, h.le, h]

/-- The lowest `k` bits with the sign in front. -/
theorem or_neg_mask {w k : Nat} (h0 : 0 < k) (hk : k ≤ w) (x : BitVec w) :
    (x &&& BitVec.ofNat w (2 ^ k - 1)) ||| -(x &&& BitVec.twoPow w (k - 1)) =
      (x.setWidth k).signExtend w := by
  have hmsb : (x.setWidth k).msb = x.getLsbD (k - 1) := by
    rw [BitVec.msb_eq_getLsbD_last, BitVec.getLsbD_setWidth]
    simp [h0]
  rw [and_mask hk, BitVec.and_twoPow]
  apply BitVec.eq_of_getLsbD_eq
  intro i hi
  rw [BitVec.getLsbD_or, BitVec.getLsbD_signExtend, hmsb, BitVec.getLsbD_setWidth]
  cases hsign : x.getLsbD (k - 1) with
  | false =>
      by_cases hin : i < k
      · simp [hi, hin]
      · simp [hi, hin, BitVec.getLsbD_of_ge _ i (Nat.not_lt.1 hin)]
  | true =>
      have hbit := getLsbD_neg_twoPow (w := w) (i := i) (show k - 1 < w by omega)
      rw [if_pos rfl, hbit]
      by_cases hin : i < k
      · by_cases hlast : k - 1 ≤ i
        · obtain rfl : i = k - 1 := by omega
          simp [hi, hin, hsign]
        · simp [hi, hin, hlast]
      · have hlast : k - 1 ≤ i := by omega
        simp [hi, hin, hlast]

/-! ## Operations -/

theorem ofInt_sub (x y : Int) :
    BitVec.ofInt w (x - y) = BitVec.ofInt w x - BitVec.ofInt w y := by
  rw [Int.sub_eq_add_neg, BitVec.ofInt_add, BitVec.ofInt_neg, BitVec.sub_eq_add_neg]

theorem ofInt_sdiv (hw : 0 < w) (hx : InRange false w x)
    (hy : InRange false w y) :
    (BitVec.ofInt w x).sdiv (BitVec.ofInt w y) = BitVec.ofInt w (x.tdiv y) := by
  apply BitVec.eq_of_toInt_eq
  rw [BitVec.toInt_sdiv, toInt_ofInt hw hx, toInt_ofInt hw hy, BitVec.toInt_ofInt]

theorem tmod_inRange (hx : InRange false w x) :
    InRange false w (x.tmod y) := by
  have hpos : (0 : Int) < 2 ^ (w - 1) := pow_pos (by decide) _
  have habs : (x.tmod y).natAbs ≤ x.natAbs := by
    rw [Int.natAbs_tmod]
    exact Nat.mod_le _ _
  have hlow := hx.1
  have hhigh := hx.2
  rcases Int.le_total 0 x with h0 | h0
  · have hsign := Int.tmod_nonneg y h0
    exact ⟨by omega, by omega⟩
  · have hsign := Int.tmod_nonneg y (show 0 ≤ -x by omega)
    rw [Int.neg_tmod] at hsign
    exact ⟨by omega, by omega⟩

theorem ofInt_srem (hw : 0 < w) (hx : InRange false w x)
    (hy : InRange false w y) :
    (BitVec.ofInt w x).srem (BitVec.ofInt w y) = BitVec.ofInt w (x.tmod y) := by
  apply BitVec.eq_of_toInt_eq
  rw [BitVec.toInt_srem, toInt_ofInt hw hx, toInt_ofInt hw hy,
    toInt_ofInt hw (tmod_inRange hx)]

/-- An unsigned integer is a number of a word. -/
theorem exists_ofNat (h : InRange true w x) :
    ∃ n : Nat, x = n ∧ n < 2 ^ w ∧ BitVec.ofInt w x = BitVec.ofNat w n := by
  obtain ⟨n, rfl⟩ := Int.eq_ofNat_of_zero_le h.1
  refine ⟨n, rfl, ?_, BitVec.ofInt_natCast w n⟩
  have hlt := h.2
  exact_mod_cast hlt

theorem ofInt_udiv (hx : InRange true w x) (hy : InRange true w y) :
    BitVec.ofInt w x / BitVec.ofInt w y = BitVec.ofInt w (x.tdiv y) := by
  obtain ⟨n, rfl, hn, hxw⟩ := exists_ofNat hx
  obtain ⟨m, rfl, hm, hyw⟩ := exists_ofNat hy
  have hle : n / m < 2 ^ w := Nat.lt_of_le_of_lt (Nat.div_le_self n m) hn
  have hdiv : (n : Int).tdiv m = (n / m : Nat) := rfl
  rw [hxw, hyw, hdiv, BitVec.ofInt_natCast]
  apply BitVec.eq_of_toNat_eq
  rw [BitVec.toNat_udiv, BitVec.toNat_ofNat, BitVec.toNat_ofNat, BitVec.toNat_ofNat,
    Nat.mod_eq_of_lt hn, Nat.mod_eq_of_lt hm, Nat.mod_eq_of_lt hle]

theorem ofInt_umod (hx : InRange true w x) (hy : InRange true w y) :
    BitVec.ofInt w x % BitVec.ofInt w y = BitVec.ofInt w (x.tmod y) := by
  obtain ⟨n, rfl, hn, hxw⟩ := exists_ofNat hx
  obtain ⟨m, rfl, hm, hyw⟩ := exists_ofNat hy
  have hle : n % m < 2 ^ w := Nat.lt_of_le_of_lt (Nat.mod_le n m) hn
  have hmod : (n : Int).tmod m = (n % m : Nat) := rfl
  rw [hxw, hyw, hmod, BitVec.ofInt_natCast]
  apply BitVec.eq_of_toNat_eq
  rw [BitVec.toNat_umod, BitVec.toNat_ofNat, BitVec.toNat_ofNat, BitVec.toNat_ofNat,
    Nat.mod_eq_of_lt hn, Nat.mod_eq_of_lt hm, Nat.mod_eq_of_lt hle]

theorem ofInt_twoPow (n : Nat) : BitVec.ofInt w (2 ^ n) = BitVec.twoPow w n := by
  have hcast : (2 : Int) ^ n = (2 ^ n : Nat) := by push_cast; rfl
  rw [hcast, BitVec.ofInt_natCast]
  apply BitVec.eq_of_toNat_eq
  rw [BitVec.toNat_twoPow, BitVec.toNat_ofNat]

theorem ofInt_shiftLeft (n : Nat) :
    BitVec.ofInt w x <<< n = BitVec.ofInt w (x * 2 ^ n) := by
  rw [BitVec.shiftLeft_eq_mul_twoPow, ← ofInt_twoPow, BitVec.ofInt_mul]

theorem ofInt_ushiftRight (hx : InRange true w x) (n : Nat) :
    BitVec.ofInt w x >>> n = BitVec.ofInt w (x / 2 ^ n) := by
  obtain ⟨m, rfl, hm, hxw⟩ := exists_ofNat hx
  have hle : m / 2 ^ n < 2 ^ w := Nat.lt_of_le_of_lt (Nat.div_le_self m _) hm
  have hdiv : (m : Int) / 2 ^ n = (m / 2 ^ n : Nat) := by push_cast; rfl
  rw [hxw, hdiv, BitVec.ofInt_natCast]
  apply BitVec.eq_of_toNat_eq
  rw [BitVec.toNat_ushiftRight, BitVec.toNat_ofNat, BitVec.toNat_ofNat,
    Nat.mod_eq_of_lt hm, Nat.mod_eq_of_lt hle, Nat.shiftRight_eq_div_pow]

theorem ediv_inRange (hy : 0 < y) (hx : InRange false w x) :
    InRange false w (x / y) := by
  have hpos : (0 : Int) < 2 ^ (w - 1) := pow_pos (by decide) _
  have hlow := hx.1
  have hhigh := hx.2
  constructor
  · refine Int.le_ediv_of_mul_le hy ?_
    nlinarith
  · refine Int.ediv_lt_of_lt_mul hy ?_
    nlinarith

theorem ofInt_sshiftRight (hw : 0 < w) (hx : InRange false w x) (n : Nat) :
    (BitVec.ofInt w x).sshiftRight n = BitVec.ofInt w (x / 2 ^ n) := by
  apply BitVec.eq_of_toInt_eq
  have hcast : ((2 ^ n : Nat) : Int) = 2 ^ n := by push_cast; rfl
  rw [BitVec.toInt_sshiftRight, toInt_ofInt hw hx, Int.shiftRight_eq_div_pow, hcast,
    toInt_ofInt hw (ediv_inRange (pow_pos (by decide) n) hx)]

/-! ## Comparisons -/

theorem ofInt_slt (hw : 0 < w) (hx : InRange false w x)
    (hy : InRange false w y) :
    (BitVec.ofInt w x).slt (BitVec.ofInt w y) = decide (x < y) := by
  rw [BitVec.slt_eq_decide, toInt_ofInt hw hx, toInt_ofInt hw hy]

theorem ofInt_ult (hx : InRange true w x) (hy : InRange true w y) :
    (BitVec.ofInt w x).ult (BitVec.ofInt w y) = decide (x < y) := by
  have hxn := toNat_ofInt hx
  have hyn := toNat_ofInt hy
  rw [BitVec.ult_eq_decide, decide_eq_decide]
  omega

end Bucktoot.Verified.Words
