import Bucktoot.Ports.GenOp

/-!
# Operations on constants

* `intOp` — what an operator means on integers;
* `wordOp_ofInt` — it is what it means on the words of these integers, when the
  operator reads words the way their type does;
* `foldConst_eq` — what `gen_opic` computes at compile time is that.
-/

namespace Bucktoot.Ports.GenOp

open Bucktoot.Verified
open Bucktoot.Verified.Words
open Bucktoot.Ports.Libtcc1

/-! ## Operators on integers -/

/-- Whether a test holds of integers. -/
def testInt : Op → Int → Int → Bool
  | .ult, x, y | .lt, x, y => x < y
  | .uge, x, y | .ge, x, y => x ≥ y
  | .ule, x, y | .le, x, y => x ≤ y
  | .ugt, x, y | .gt, x, y => x > y
  | .eq, x, y => x = y
  | .ne, x, y => x ≠ y
  | _, _, _ => false

/-- A bitwise operator works on the two's complement of its operands. -/
def bitwise (f : DWord → DWord → DWord) (x y : Int) : Int :=
  (f (BitVec.ofInt 64 x) (BitVec.ofInt 64 y)).toInt

/-- What an operator means on integers that have words of `w` bits.  There is
no meaning for a division by zero, for one whose result does not fit, for a
pointer difference that is no multiple of the size and for a shift count that is
out of range. -/
def intOp (w : Nat) : Op → Int → Int → Option Int
  | .add, x, y => some (x + y)
  | .sub, x, y => some (x - y)
  | .mul, x, y => some (x * y)
  | .and, x, y => some (bitwise (· &&& ·) x y)
  | .or, x, y => some (bitwise (· ||| ·) x y)
  | .xor, x, y => some (bitwise (· ^^^ ·) x y)
  | .div, x, y | .udiv, x, y =>
      if y = 0 ∨ (x = -2 ^ (w - 1) ∧ y = -1) then none else some (x.tdiv y)
  | .mod, x, y | .umod, x, y =>
      if y = 0 ∨ (x = -2 ^ (w - 1) ∧ y = -1) then none else some (x.tmod y)
  | .pdiv, x, y => if 0 < y ∧ y ∣ x then some (x / y) else none
  | .shl, x, y => if 0 ≤ y ∧ y < w then some (x * 2 ^ y.toNat) else none
  | .shr, x, y | .sar, x, y =>
      if 0 ≤ y ∧ y < w then some (x / 2 ^ y.toNat) else none
  | .land, _, _ | .lor, _, _ => none
  | op, x, y => some (if testInt op x y then 1 else 0)

/-- How an operator reads its operands, where it matters. -/
def Op.reads : Op → Option Bool
  | .udiv | .umod | .shr | .ult | .uge | .ule | .ugt => some true
  | .div | .mod | .pdiv | .sar | .lt | .ge | .le | .gt => some false
  | _ => none

/-- The range of the second operand does not matter. -/
def Op.modular : Op → Bool
  | .add | .sub | .shl | .shr | .sar => true
  | _ => false

theorem not_modular_of_isTest {op : Op} (h : op.isTest = true) :
    op.modular = false := by
  cases op
  case add | sub | shl | shr | sar => cases h
  all_goals rfl

section Words

variable {w : Nat} {x y z : Int} {u : Bool} {op : Op}

theorem ofInt_bitwise {f : DWord → DWord → DWord} {g : BitVec w → BitVec w → BitVec w}
    (hw : w ≤ 64) (hfg : ∀ a b, (f a b).setWidth w = g (a.setWidth w) (b.setWidth w)) :
    g (BitVec.ofInt w x) (BitVec.ofInt w y) = BitVec.ofInt w (bitwise f x y) := by
  have hf := hfg (BitVec.ofInt 64 x) (BitVec.ofInt 64 y)
  rw [ofInt_setWidth hw, ofInt_setWidth hw] at hf
  rw [← hf, bitwise, ← ofInt_setWidth hw, BitVec.ofInt_toInt]

theorem count_ofInt (hw : w ≤ 64) (h32 : 32 ≤ w) (h0 : 0 ≤ y) (hy : y < w) :
    count (BitVec.ofInt w y) = y.toNat := by
  have hrange : InRange true 32 y := ⟨h0, by omega⟩
  have hnat := toNat_ofInt hrange
  rw [count, ofInt_setWidth h32]
  omega

theorem ofInt_truth (p : Bool) :
    (truth p : BitVec w) = BitVec.ofInt w (if p then 1 else 0) := by
  cases p <;> rfl

theorem holds_ofInt (hw : 0 < w) (hop : op.isTest = true)
    (hreads : op.reads ≠ some !u) (hx : InRange u w x) (hy : InRange u w y) :
    holds op (BitVec.ofInt w x) (BitVec.ofInt w y) = testInt op x y := by
  have hlt : op.reads = some true →
      ∀ {x y}, InRange u w x → InRange u w y →
        (BitVec.ofInt w x).ult (BitVec.ofInt w y) = decide (x < y) := by
    intro hr x y hx hy
    cases u with
    | true => exact ofInt_ult hx hy
    | false => exact absurd hr hreads
  have hslt : op.reads = some false →
      ∀ {x y}, InRange u w x → InRange u w y →
        (BitVec.ofInt w x).slt (BitVec.ofInt w y) = decide (x < y) := by
    intro hr x y hx hy
    cases u with
    | true => exact absurd hr hreads
    | false => exact ofInt_slt hw hx hy
  have hnot (x y : Int) : (!decide (x < y)) = decide (x ≥ y) := by
    rw [← decide_not, decide_eq_decide, ge_iff_le, Int.not_lt]
  cases op
  case ult => exact hlt rfl hx hy
  case ugt => exact hlt rfl hy hx
  case uge => exact (congrArg not (hlt rfl hx hy)).trans (hnot x y)
  case ule => exact (congrArg not (hlt rfl hy hx)).trans (hnot y x)
  case lt => exact hslt rfl hx hy
  case gt => exact hslt rfl hy hx
  case ge => exact (congrArg not (hslt rfl hx hy)).trans (hnot x y)
  case le => exact (congrArg not (hslt rfl hy hx)).trans (hnot y x)
  case eq => simp [holds, testInt, beq_eq_decide, ofInt_inj hw hx hy]
  case ne => simp [holds, testInt, bne, beq_eq_decide, ofInt_inj hw hx hy]
  all_goals cases hop

/-- The words of a division that C gives a meaning are not those that raise the
exception. -/
theorem division_ofInt (hw : 0 < w) (hx : InRange false w x)
    (hy : InRange false w y) (h : ¬ (y = 0 ∨ (x = -2 ^ (w - 1) ∧ y = -1))) :
    ¬ (BitVec.ofInt w y = 0 ∨
      (BitVec.ofInt w x = BitVec.intMin w ∧ BitVec.ofInt w y = -1)) := by
  have hpos : (1 : Int) ≤ 2 ^ (w - 1) :=
    Int.add_one_le_of_lt (pow_pos (by decide) _)
  have hmin : BitVec.intMin w = BitVec.ofInt w (-2 ^ (w - 1)) := by
    apply BitVec.eq_of_toInt_eq
    rw [BitVec.toInt_intMin_of_pos hw,
      toInt_ofInt hw (inRange_signed.2 ⟨by omega, by omega⟩)]
  have hminus : (-1 : BitVec w) = BitVec.ofInt w (-1) := by
    rw [BitVec.ofInt_neg]
    rfl
  have hzero : (0 : BitVec w) = BitVec.ofInt w 0 := rfl
  rw [hmin, hminus, hzero, ofInt_inj hw hy (inRange_signed.2 ⟨by omega, by omega⟩),
    ofInt_inj hw hx (inRange_signed.2 ⟨by omega, by omega⟩),
    ofInt_inj hw hy (inRange_signed.2 ⟨by omega, by omega⟩)]
  exact h

/-- **An operator means the same on words and on integers.** -/
theorem wordOp_ofInt (h32 : 32 ≤ w) (h64 : w ≤ 64) (hreads : op.reads ≠ some !u)
    (hx : InRange u w x)
    (hy : op.modular = false → InRange u w y)
    (hz : intOp w op x y = some z) :
    wordOp op (BitVec.ofInt w x) (BitVec.ofInt w y) = some (BitVec.ofInt w z) := by
  have hw : 0 < w := by omega
  have hsigned (h : op.reads = some false) : u = false := by
    cases u with
    | true => exact absurd h hreads
    | false => rfl
  have hunsigned (h : op.reads = some true) : u = true := by
    cases u with
    | true => rfl
    | false => exact absurd h hreads
  have htest (h : op.isTest = true)
      (hz : some (if testInt op x y then 1 else 0) = some z) :
      some (truth (holds op (BitVec.ofInt w x) (BitVec.ofInt w y))) =
        some (BitVec.ofInt w z) := by
    cases hz
    rw [holds_ofInt hw h hreads hx (hy (not_modular_of_isTest h)), ofInt_truth]
  cases op
  case add | sub | mul =>
    cases hz
    simp only [wordOp, BitVec.ofInt_add, BitVec.ofInt_mul, ofInt_sub]
  case and =>
    cases hz
    exact congrArg some (ofInt_bitwise h64 fun _ _ => BitVec.setWidth_and)
  case or =>
    cases hz
    exact congrArg some (ofInt_bitwise h64 fun _ _ => BitVec.setWidth_or)
  case xor =>
    cases hz
    exact congrArg some (ofInt_bitwise h64 fun _ _ => BitVec.setWidth_xor)
  case land | lor => cases hz
  case shl | shr | sar =>
    simp only [intOp] at hz
    split at hz
    · case isTrue hcount =>
        cases hz
        rw [wordOp, count_ofInt h64 h32 hcount.1 hcount.2, if_pos (by omega)]
        first
        | rw [ofInt_shiftLeft]
        | obtain rfl := hunsigned rfl
          rw [ofInt_ushiftRight hx]
        | obtain rfl := hsigned rfl
          rw [ofInt_sshiftRight hw hx]
    · cases hz
  case div | mod =>
    obtain rfl := hsigned rfl
    have hy := hy rfl
    simp only [intOp] at hz
    split at hz
    · cases hz
    · case isFalse hmeaning =>
        cases hz
        rw [wordOp, if_neg (division_ofInt hw hx hy hmeaning)]
        first
        | rw [ofInt_sdiv hw hx hy]
        | rw [ofInt_srem hw hx hy]
  case pdiv =>
    obtain rfl := hsigned rfl
    have hy := hy rfl
    simp only [intOp] at hz
    split at hz
    · case isTrue hexact =>
        cases hz
        have hmeaning : ¬ (y = 0 ∨ (x = -2 ^ (w - 1) ∧ y = -1)) := by omega
        rw [wordOp, if_neg (division_ofInt hw hx hy hmeaning), ofInt_sdiv hw hx hy,
          Int.tdiv_eq_ediv_of_dvd hexact.2]
    · cases hz
  case udiv | umod =>
    obtain rfl := hunsigned rfl
    have hy := hy rfl
    simp only [intOp] at hz
    split at hz
    · cases hz
    · case isFalse hmeaning =>
        cases hz
        have hzero : (0 : BitVec w) = BitVec.ofInt w 0 := rfl
        have hne : ¬ BitVec.ofInt w y = 0 := by
          rw [hzero, ofInt_inj hw hy ⟨Int.le_refl 0, pow_pos (by decide) w⟩]
          exact fun h0 => hmeaning (.inl h0)
        rw [wordOp, if_neg hne]
        first
        | rw [ofInt_udiv hx hy]
        | rw [ofInt_umod hx hy]
  all_goals exact htest rfl hz

end Words

/-! ## Constants -/

/-- The width of the operations on values of a type. -/
def CType.width (t : CType) : Nat := if t.isLLong then 64 else 32

/-- The word stands for the integer, as far as the type looks at it. -/
def Agrees (t : CType) (l : DWord) (x : Int) : Prop :=
  l.setWidth t.width = BitVec.ofInt t.width x

theorem norm_eq {t : CType} (h : t.isLLong = false) (l : DWord) :
    norm t l = if t.unsigned then (low l).setWidth 64 else (low l).signExtend 64 := by
  rw [norm, h, if_neg Bool.false_ne_true]
  have hmask := and_mask (show 32 ≤ 64 by decide) l
  have hsign := or_neg_mask (show 0 < 32 by decide) (show 32 ≤ 64 by decide) l
  cases t.unsigned with
  | true => exact (BitVec.or_zero).trans hmask
  | false => exact hsign

theorem norm_of_agrees {t : CType} {l : DWord} {x : Int} (h : Agrees t l x)
    (hx : InRange t.unsigned t.width x) : norm t l = BitVec.ofInt 64 x := by
  cases ht : t.isLLong with
  | true =>
      rw [Agrees, CType.width, ht] at h
      rw [norm, if_pos ht]
      exact (BitVec.setWidth_eq l).symm.trans h
  | false =>
      rw [Agrees, CType.width, ht, if_neg Bool.false_ne_true] at h
      rw [CType.width, ht, if_neg Bool.false_ne_true] at hx
      have hlow : low l = BitVec.ofInt 32 x := h
      rw [norm_eq ht, hlow]
      cases hu : t.unsigned with
      | true =>
          rw [hu] at hx
          exact ofInt_zeroExtend (by decide) hx
      | false =>
          rw [hu] at hx
          exact ofInt_signExtend (by decide) (by decide) hx

theorem sign_bit (a : DWord) : a >>> 63 ≠ 0 ↔ a.msb = true := by
  have hlt := a.isLt
  rw [BitVec.msb_eq_decide, decide_eq_true_iff, ne_eq, ← BitVec.toNat_inj,
    BitVec.toNat_ushiftRight, Nat.shiftRight_eq_div_pow]
  show ¬ a.toNat / 2 ^ 63 = 0 ↔ _
  omega

theorem genOpicSdiv_eq (a b : DWord) : genOpicSdiv a b = a.sdiv b := by
  have hxor : (a ^^^ b) >>> 63 ≠ 0 ↔ (a.msb ^^ b.msb) = true := by
    rw [sign_bit, BitVec.msb_xor]
  rw [genOpicSdiv, BitVec.sdiv_eq]
  simp only [sign_bit, hxor]
  cases a.msb <;> cases b.msb <;> rfl

theorem xor_sign (a : DWord) :
    a ^^^ ((1 : DWord) <<< 63) = a + BitVec.twoPow 64 63 := by
  have hsign : (1 : DWord) <<< 63 = BitVec.twoPow 64 63 := rfl
  apply BitVec.eq_of_getLsbD_eq
  intro i hi
  have hcarry : BitVec.carry i a (BitVec.twoPow 64 63) false = false := by
    have hdvd : 2 ^ 63 % 2 ^ i = 0 :=
      Nat.mod_eq_zero_of_dvd (Nat.pow_dvd_pow 2 (by omega))
    have hlt := Nat.mod_lt a.toNat (Nat.two_pow_pos i)
    have htwo : (BitVec.twoPow 64 63).toNat = 2 ^ 63 := rfl
    rw [BitVec.carry, htwo, hdvd, decide_eq_false_iff_not]
    simpa using hlt
  rw [hsign, BitVec.getLsbD_xor, BitVec.getLsbD_add hi, hcarry, Bool.xor_false]

/-- Without the sign bit words are ordered as they are with a sign. -/
theorem toNat_xor_sign (a : DWord) :
    ((a ^^^ ((1 : DWord) <<< 63)).toNat : Int) = a.toInt + 2 ^ 63 := by
  have hlt := a.isLt
  have htwo : (BitVec.twoPow 64 63).toNat = 2 ^ 63 := rfl
  rw [xor_sign, BitVec.toNat_add, htwo, BitVec.toInt_eq_toNat_cond]
  split <;> omega

theorem genOpicLt_eq (a b : DWord) : genOpicLt a b = a.slt b := by
  have ha := toNat_xor_sign a
  have hb := toNat_xor_sign b
  rw [genOpicLt, BitVec.slt_eq_decide, decide_eq_decide, BitVec.lt_def]
  generalize (a ^^^ ((1 : DWord) <<< 63)).toNat = n at ha ⊢
  generalize (b ^^^ ((1 : DWord) <<< 63)).toNat = m at hb ⊢
  omega

theorem sub_mul_sdiv (a b : DWord) : a - b * a.sdiv b = a.srem b := by
  have hrange (a : DWord) : InRange false 64 a.toInt :=
    ⟨BitVec.le_toInt a, BitVec.toInt_lt⟩
  have hdm := Int.tmod_add_mul_tdiv a.toInt b.toInt
  have hdiv := ofInt_sdiv (by decide) (hrange a) (hrange b)
  have hrem := ofInt_srem (by decide) (hrange a) (hrange b)
  rw [BitVec.ofInt_toInt, BitVec.ofInt_toInt] at hdiv hrem
  calc a - b * a.sdiv b
      = BitVec.ofInt 64 (a.toInt - b.toInt * a.toInt.tdiv b.toInt) := by
        rw [ofInt_sub, BitVec.ofInt_mul, BitVec.ofInt_toInt, BitVec.ofInt_toInt, hdiv]
    _ = a.srem b := by
        rw [hrem]
        congr 1
        omega

/-- What is computed at compile time is what the operator means. -/
theorem foldConst_eq {op : Op} {shm l1 l2 r : DWord}
    (hshift : op.isShift = true → (l2 &&& shm).toNat = count l2)
    (h : wordOp op l1 l2 = some r) : foldConst op shm l1 l2 = r := by
  have hge (a b : DWord) : decide (a ≥ b) = !a.ult b := by
    rw [BitVec.ult_eq_decide, ← decide_not, decide_eq_decide, Nat.not_lt,
      ge_iff_le, BitVec.le_def]
  cases op
  case add | sub | and | xor | or | mul => exact Option.some.inj h
  case div | pdiv =>
    simp only [wordOp] at h
    split at h
    · cases h
    · exact (genOpicSdiv_eq l1 l2).trans (Option.some.inj h)
  case mod =>
    simp only [wordOp] at h
    split at h
    · cases h
    · rw [foldConst, genOpicSdiv_eq, sub_mul_sdiv]
      exact Option.some.inj h
  case udiv | umod =>
    simp only [wordOp] at h
    split at h
    · cases h
    · exact Option.some.inj h
  case shl | shr =>
    simp only [wordOp] at h
    split at h
    · rw [foldConst, hshift rfl]
      exact Option.some.inj h
    · cases h
  case sar =>
    simp only [wordOp] at h
    split at h
    · rw [foldConst, hshift rfl]
      refine Eq.trans ?_ (Option.some.inj h)
      by_cases hmsb : l1.msb = true
      · rw [if_pos ((sign_bit l1).2 hmsb), BitVec.sshiftRight_eq_of_msb_true hmsb]
      · rw [if_neg (mt (sign_bit l1).1 hmsb),
          BitVec.sshiftRight_eq_of_msb_false (Bool.eq_false_iff.2 hmsb)]
    · cases h
  case land | lor => cases h
  case ult | ugt | eq => exact Option.some.inj h
  case ne =>
    have hne : decide (l1 ≠ l2) = (l1 != l2) := by
      rw [bne, beq_eq_decide, decide_not]
    rw [foldConst, hne]
    exact Option.some.inj h
  case uge =>
    rw [foldConst, hge]
    exact Option.some.inj h
  case ule =>
    have hle : decide (l1 ≤ l2) = !l2.ult l1 := hge l2 l1
    rw [foldConst, hle]
    exact Option.some.inj h
  all_goals
    rw [foldConst, genOpicLt_eq]
    exact Option.some.inj h

end Bucktoot.Ports.GenOp
