import Bucktoot.Ports.Libtcc1

/-!
# 64-bit operations of the compiler on 32-bit registers

The scripts are compiled for the i386.  `gen_opi` emits one instruction for an
operation on words; `gen_opl` puts an operation on `long long` values together
from operations on their halves and calls of the runtime library.

* `wordOp` — what an operator means on words of any width, where C says so;
* `genOpi_refines`, `genOpl_refines` — the instructions compute it.
-/

namespace Bucktoot.Ports.GenOp

open Bucktoot.Verified
open Bucktoot.Ports.Libtcc1

/-- The tokens that `gen_opic` takes. -/
inductive Op where
  | add | sub | and | xor | or | mul
  | pdiv | div | mod | udiv | umod
  | shl | shr | sar
  | ult | uge | eq | ne | ule | ugt | lt | ge | le | gt
  | land | lor
  deriving DecidableEq, Repr

/-- `TOK_ULT … TOK_GT`. -/
def Op.isTest : Op → Bool
  | .ult | .uge | .eq | .ne | .ule | .ugt | .lt | .ge | .le | .gt => true
  | _ => false

def Op.isShift : Op → Bool
  | .shl | .shr | .sar => true
  | _ => false

section Words

variable {w : Nat}

/-- Whether a test holds. -/
def holds : Op → BitVec w → BitVec w → Bool
  | .ult, a, b => a.ult b
  | .uge, a, b => !a.ult b
  | .eq, a, b => a == b
  | .ne, a, b => a != b
  | .ule, a, b => !b.ult a
  | .ugt, a, b => b.ult a
  | .lt, a, b => a.slt b
  | .ge, a, b => !a.slt b
  | .le, a, b => !b.slt a
  | .gt, a, b => b.slt a
  | _, _, _ => false

/-- The word of a truth value. -/
def truth (p : Bool) : BitVec w := if p then 1 else 0

/-- The count of a shift is an `int` in any case. -/
def count (b : BitVec w) : Nat := (b.setWidth 32).toNat

/-- What an operator means on words.  There is no meaning where C gives none
and the machine may trap. -/
def wordOp : Op → BitVec w → BitVec w → Option (BitVec w)
  | .add, a, b => some (a + b)
  | .sub, a, b => some (a - b)
  | .and, a, b => some (a &&& b)
  | .xor, a, b => some (a ^^^ b)
  | .or, a, b => some (a ||| b)
  | .mul, a, b => some (a * b)
  | .div, a, b | .pdiv, a, b =>
      if b = 0 ∨ (a = BitVec.intMin w ∧ b = -1) then none else some (a.sdiv b)
  | .mod, a, b =>
      if b = 0 ∨ (a = BitVec.intMin w ∧ b = -1) then none else some (a.srem b)
  | .udiv, a, b => if b = 0 then none else some (a / b)
  | .umod, a, b => if b = 0 then none else some (a % b)
  | .shl, a, b => if count b < w then some (a <<< count b) else none
  | .shr, a, b => if count b < w then some (a >>> count b) else none
  | .sar, a, b => if count b < w then some (a.sshiftRight (count b)) else none
  | .land, _, _ | .lor, _, _ => none
  | op, a, b => some (truth (holds op a b))

/-- What a shift makes of a word. -/
def shifted (op : Op) (a : BitVec w) (c : Nat) : BitVec w :=
  match op with
  | .shl => a <<< c
  | .shr => a >>> c
  | _ => a.sshiftRight c

end Words

/-! ## `gen_opi` -/

/-- The instruction for an operation on words.  A shift takes five bits of its
count; `idiv` raises an exception for a quotient that does not fit. -/
def genOpi : Op → Word → Word → Option Word
  | .add, a, b => some (a + b)
  | .sub, a, b => some (a - b)
  | .and, a, b => some (a &&& b)
  | .xor, a, b => some (a ^^^ b)
  | .or, a, b => some (a ||| b)
  | .mul, a, b => some (a * b)
  | .div, a, b | .pdiv, a, b =>
      if b = 0 ∨ (a = BitVec.intMin 32 ∧ b = -1) then none else some (a.sdiv b)
  | .mod, a, b =>
      if b = 0 ∨ (a = BitVec.intMin 32 ∧ b = -1) then none else some (a.srem b)
  | .udiv, a, b => if b = 0 then none else some (a / b)
  | .umod, a, b => if b = 0 then none else some (a % b)
  | .shl, a, b => some (a <<< (b.toNat % 32))
  | .shr, a, b => some (a >>> (b.toNat % 32))
  | .sar, a, b => some (a.sshiftRight (b.toNat % 32))
  | .land, _, _ | .lor, _, _ => none
  | op, a, b => some (truth (holds op a b))

theorem genOpi_refines {op : Op} {a b r : Word} (h : wordOp op a b = some r) :
    genOpi op a b = some r := by
  have hcount : count b = b.toNat := by rw [count, BitVec.setWidth_eq]
  have hshift (f : Nat → Word)
      (hf : (if count b < 32 then some (f (count b)) else none) = some r) :
      some (f (b.toNat % 32)) = some r := by
    by_cases hlt : count b < 32
    · rw [if_pos hlt, hcount] at hf
      rw [Nat.mod_eq_of_lt (by omega)]
      exact hf
    · rw [if_neg hlt] at hf
      cases hf
  cases op
  case shl => exact hshift (a <<< ·) h
  case shr => exact hshift (a >>> ·) h
  case sar => exact hshift a.sshiftRight h
  all_goals exact h

/-! ## `gen_opl` -/

/-- The operator for the high words.  For equal values the low words decide, and
the jump goes the other way. -/
def highTest : Op → Op
  | .lt => .le
  | .gt => .ge
  | .ult => .ule
  | .ugt => .uge
  | op => op

/-- The operator for the low words. -/
def lowTest : Op → Op
  | .lt => .ult
  | .le => .ule
  | .gt => .ugt
  | .ge => .uge
  | op => op

/-- The jumps of a comparison. -/
def testLong (op : Op) (a b : DWord) : Bool :=
  let onHigh := holds (highTest op) (high a) (high b)
  let onLow := holds (lowTest op) (low a) (low b)
  if op = .ne then if onHigh then true else onLow
  else if !onHigh then false
  else if op ≠ .eq ∧ high a ≠ high b then true
  else onLow

/-- A shift by a constant of `32` and more: a word is moved and shifted on. -/
def shiftWord (op : Op) (h l : Word) (c : Nat) : Option DWord := do
  let src := if op = .shl then l else h
  let x ← (if 32 < c then genOpi op src (BitVec.ofNat 32 (c - 32))
    else some src)
  let y ← (if op = .sar then genOpi .sar x (BitVec.ofNat 32 31) else some 0)
  some (if op = .shl then pack x y else pack y x)

/-- A shift by a smaller constant. -/
def shiftBits (op : Op) (h l : Word) (c : Nat) : Option DWord := do
  let (src, dst) := if op = .shl then (l, h) else (h, l)
  let x ← genOpi op src (BitVec.ofNat 32 c)
  let y ← genOpi (if op = .shl then .shr else .shl) src (BitVec.ofNat 32 (32 - c))
  let z ← genOpi (if op = .shl then .shl else .shr) dst (BitVec.ofNat 32 c)
  let v ← genOpi .or y z
  some (if op = .shl then pack v x else pack x v)

/-- A shift by a constant. -/
def shiftLong (op : Op) (a : DWord) (c : Nat) : Option DWord :=
  if 32 ≤ c then shiftWord op (high a) (low a) c
  else shiftBits op (high a) (low a) c

/-- `gen_opl`, with whether the second operand is a constant. -/
def genOpl (isConst : Bool) (op : Op) (a b : DWord) : Option DWord :=
  match op with
  | .div | .pdiv => divdi3 a b
  | .udiv => udivdi3 a b
  | .mod => moddi3 a b
  | .umod => umoddi3 a b
  | .xor | .and | .or => do
      let l ← genOpi op (low a) (low b)
      let h ← genOpi op (high a) (high b)
      some (pack h l)
  | .mul => do
      let (mh, ml) := umulPpmm (low a) (low b)
      let m1 ← genOpi .mul (high b) (low a)
      let m2 ← genOpi .mul (high a) (low b)
      let m ← genOpi .add m1 m2
      let h ← genOpi .add mh m
      some (pack h ml)
  | .add =>
      let l := low a + low b
      some (pack (high a + high b + truth (l.ult (low a))) l)
  | .sub =>
      let (h, l) := subDdmmss (high a) (low a) (high b) (low b)
      some (pack h l)
  | .sar | .shr | .shl =>
      if isConst then shiftLong op a (low b).toNat
      else
        match op with
        | .sar => some (ashrdi3 a (low b).toNat)
        | .shr => some (lshrdi3 a (low b).toNat)
        | _ => some (ashldi3 a (low b).toNat)
  | .land | .lor => none
  | _ => some (truth (testLong op a b))

/-! ## The halves -/

theorem toNat_truth (p : Bool) : (truth p : Word).toNat = p.toNat := by
  cases p <;> rfl

theorem add_halves (ah al bh bl : Word) :
    pack (ah + bh + truth ((al + bl).ult al)) (al + bl) =
      pack ah al + pack bh bl := by
  have hal := al.isLt
  have hbl := bl.isLt
  apply BitVec.eq_of_toNat_eq
  simp only [toNat_pack, BitVec.toNat_add, toNat_truth, BitVec.ult_eq_decide]
  by_cases hcarry : (al.toNat + bl.toNat) % 2 ^ 32 < al.toNat
  · rw [decide_eq_true hcarry, Bool.toNat_true]
    omega
  · rw [decide_eq_false hcarry, Bool.toNat_false]
    omega

theorem mul_halves (ah al bh bl : Word) :
    pack ((umulPpmm al bl).1 + (bh * al + ah * bl)) (umulPpmm al bl).2 =
      pack ah al * pack bh bl := by
  have hmul := umulPpmm_eq al bl
  have hlow := (umulPpmm al bl).2.isLt
  generalize umulPpmm al bl = m at hmul hlow ⊢
  have hprod : (pack ah al).toNat * (pack bh bl).toNat =
      (ah.toNat * bh.toNat * 2 ^ 32 + (m.1.toNat +
        (bh.toNat * al.toNat + ah.toNat * bl.toNat))) * 2 ^ 32 + m.2.toNat :=
    calc (pack ah al).toNat * (pack bh bl).toNat
        = (ah.toNat * bh.toNat * 2 ^ 32 +
            (bh.toNat * al.toNat + ah.toNat * bl.toNat)) * 2 ^ 32 +
          al.toNat * bl.toNat := by
          rw [toNat_pack, toNat_pack]
          ring
      _ = _ := by
          rw [← hmul]
          ring
  apply BitVec.eq_of_toNat_eq
  rw [toNat_pack, BitVec.toNat_mul, hprod]
  refine Eq.trans ?_ (Limbs.pack_mod _ hlow).symm
  rw [Nat.mul_add_mod']
  simp only [BitVec.toNat_add, BitVec.toNat_mul, Nat.add_mod, Nat.mod_mod]

theorem sub_halves (a b : DWord) :
    pack (subDdmmss (high a) (low a) (high b) (low b)).1
      (subDdmmss (high a) (low a) (high b) (low b)).2 = a - b := by
  rw [subDdmmss_eq, pack_halves, pack_halves]

theorem toInt_pack (h l : Word) :
    (pack h l).toInt = h.toInt * 2 ^ 32 + l.toNat := by
  have hl := l.isLt
  rw [BitVec.toInt_eq_toNat_cond, BitVec.toInt_eq_toNat_cond, toNat_pack]
  split <;> split <;> omega

theorem pack_inj {ah al bh bl : Word} :
    pack ah al = pack bh bl ↔ ah = bh ∧ al = bl := by
  constructor
  · intro h
    have hhigh := congrArg high h
    have hlow := congrArg low h
    rw [high_pack, high_pack] at hhigh
    rw [low_pack, low_pack] at hlow
    exact ⟨hhigh, hlow⟩
  · rintro ⟨rfl, rfl⟩
    rfl

/-- A comparison decides on the high words, and for equal ones on the low
words. -/
theorem test_halves {op : Op} (h : op.isTest = true) (ah al bh bl : Word) :
    testLong op (pack ah al) (pack bh bl) =
      holds op (pack ah al) (pack bh bl) := by
  have hal := al.isLt
  have hbl := bl.isLt
  have hsigned : ah = bh ↔ ah.toInt = bh.toInt := BitVec.toInt_inj.symm
  have hunsigned : ah = bh ↔ ah.toNat = bh.toNat := BitVec.toNat_inj.symm
  rw [testLong, high_pack, high_pack, low_pack, low_pack, Bool.eq_iff_iff]
  cases op
  case eq => simp [highTest, lowTest, holds, pack_inj]
  case ne => simp [highTest, lowTest, holds, pack_inj, imp_iff_not_or]
  case lt | ge | le | gt =>
    simp [highTest, lowTest, holds, BitVec.slt_eq_decide, BitVec.ult_eq_decide,
      toInt_pack, hsigned]
    omega
  case ult | uge | ule | ugt =>
    simp [highTest, lowTest, holds, BitVec.ult_eq_decide, toNat_pack, hunsigned]
    omega
  all_goals cases h

/-! ## Shifts by a constant -/

theorem genOpi_shift {op : Op} (h : op.isShift = true) (a : Word) {c : Nat}
    (hc : c < 32) :
    genOpi op a (BitVec.ofNat 32 c) = some (shifted op a c) := by
  have hcount : (BitVec.ofNat 32 c).toNat % 32 = c := by
    rw [BitVec.toNat_ofNat]
    omega
  cases op
  case shl | shr | sar => simp only [genOpi, shifted, hcount]
  all_goals cases h

theorem shiftBits_eq {op : Op} (h : op.isShift = true) {c : Nat} (h0 : 0 < c)
    (hc : c < 32) (ah al : Word) :
    shiftBits op ah al c = some (shifted op (pack ah al) c) := by
  have hat (op : Op) (h : op.isShift = true) (a : Word) :=
    genOpi_shift h a hc
  have hrest (op : Op) (h : op.isShift = true) (a : Word) :=
    genOpi_shift h a (c := 32 - c) (by omega)
  have hor (a b : Word) : genOpi .or a b = some (a ||| b) := rfl
  cases op
  case shl =>
    have hshift := Limbs.shiftLeft_pack ah al (k := c) (by omega)
    simp only [shiftBits, if_true, hat .shl rfl, hrest .shr rfl, hor,
      Option.bind_eq_bind, Option.bind_some, shifted]
    rw [BitVec.or_comm]
    exact congrArg some hshift
  case shr =>
    have hshift := Limbs.ushiftRight_pack ah al (k := c) (by omega)
    simp [shiftBits, hat .shr rfl, hrest .shl rfl, hor, shifted]
    exact hshift
  case sar =>
    have hshift := Limbs.sshiftRight_pack ah al (k := c) (by omega)
    simp [shiftBits, hat .shr rfl, hat .sar rfl, hrest .shl rfl, hor, shifted]
    exact hshift
  all_goals cases h

theorem shiftWord_eq {op : Op} (h : op.isShift = true) {c : Nat} (h32 : 32 ≤ c)
    (hc : c < 64) (ah al : Word) :
    shiftWord op ah al c = some (shifted op (pack ah al) c) := by
  have hmoved (src : Word) :
      (if 32 < c then genOpi op src (BitVec.ofNat 32 (c - 32)) else some src) =
        some (shifted op src (c - 32)) := by
    by_cases hlt : 32 < c
    · rw [if_pos hlt, genOpi_shift h src (by omega)]
    · have hzero : c - 32 = 0 := by omega
      rw [if_neg hlt, hzero]
      cases op
      case shl | shr | sar => simp [shifted]
      all_goals cases h
  simp only [shiftWord, hmoved, Option.bind_eq_bind, Option.bind_some]
  cases op
  case shl => exact congrArg some (Limbs.shiftLeft_pack_word ah al h32)
  case shr => exact congrArg some (Limbs.ushiftRight_pack_word ah al h32)
  case sar =>
    have hsign : genOpi .sar (ah.sshiftRight (c - 32)) (BitVec.ofNat 32 31) =
        some (ah.sshiftRight 31) := by
      refine (genOpi_shift rfl _ (by decide)).trans (congrArg some ?_)
      show (ah.sshiftRight (c - 32)).sshiftRight 31 = _
      rw [← BitVec.sshiftRight_add]
      exact Limbs.sshiftRight_sign ah (by omega)
    show ((genOpi .sar (ah.sshiftRight (c - 32)) (BitVec.ofNat 32 31)).bind
      fun y => some (pack y (ah.sshiftRight (c - 32)))) = _
    rw [hsign]
    exact congrArg some (Limbs.sshiftRight_pack_word ah al h32)
  all_goals cases h

theorem shiftLong_eq {op : Op} (h : op.isShift = true) {c : Nat} (h0 : 0 < c)
    (hc : c < 64) (a : DWord) :
    shiftLong op a c = some (shifted op a c) := by
  conv_rhs => rw [← pack_halves a]
  by_cases hword : 32 ≤ c
  · rw [shiftLong, if_pos hword]
    exact shiftWord_eq h hword hc _ _
  · rw [shiftLong, if_neg hword]
    exact shiftBits_eq h h0 (Nat.not_le.1 hword) _ _

/-! ## Every operation -/

theorem count_eq (b : DWord) : count b = (low b).toNat := rfl

/-- In line or by a call. -/
theorem genOpl_shift {isConst : Bool} {op : Op} (h : op.isShift = true)
    {a b : DWord} (hzero : isConst = true → count b ≠ 0) (hlt : count b < 64) :
    genOpl isConst op a b = some (shifted op a (count b)) := by
  rw [count_eq] at hzero hlt ⊢
  cases isConst with
  | true =>
      have hpos := Nat.pos_of_ne_zero (hzero rfl)
      cases op
      case shl | shr | sar => exact shiftLong_eq rfl hpos hlt a
      all_goals cases h
  | false =>
      cases op
      case shl => exact congrArg some (ashldi3_eq a _)
      case shr => exact congrArg some (lshrdi3_eq a _)
      case sar => exact congrArg some (ashrdi3_eq a _)
      all_goals cases h

/-- The code for an operation on `long long` values, operator by operator. -/
theorem genOpl_eq {isConst : Bool} {op : Op} {a b r : DWord}
    (hzero : isConst = true → op.isShift = true → count b ≠ 0)
    (h : wordOp op a b = some r) : genOpl isConst op a b = some r := by
  have hbits (f : Word → Word → Word) (g : DWord → DWord → DWord)
      (hfg : ∀ ah al bh bl, pack (f ah bh) (f al bl) = g (pack ah al) (pack bh bl)) :
      pack (f (high a) (high b)) (f (low a) (low b)) = g a b := by
    rw [hfg, pack_halves, pack_halves]
  have hdiv (f : DWord) (h : (if b = 0 ∨ (a = BitVec.intMin 64 ∧ b = -1) then none
      else some f) = some r) : (if b = 0 then none else some f) = some r := by
    by_cases hb : b = 0
    · rw [if_pos (.inl hb)] at h
      cases h
    · rw [if_neg hb]
      split at h
      · cases h
      · exact h
  have hshift (hs : op.isShift = true)
      (h : (if count b < 64 then some (shifted op a (count b)) else none) = some r) :
      count b < 64 ∧ shifted op a (count b) = r := by
    split at h
    · case isTrue hlt => exact ⟨hlt, Option.some.inj h⟩
    · cases h
  have htest (ht : op.isTest = true) :
      some (truth (testLong op a b)) = some (truth (w := 64) (holds op a b)) := by
    rw [← pack_halves a, ← pack_halves b, test_halves ht]
  cases op
  case add =>
    have hadd := add_halves (high a) (low a) (high b) (low b)
    rw [pack_halves, pack_halves] at hadd
    exact (congrArg some hadd).trans h
  case mul =>
    have hmul := mul_halves (high a) (low a) (high b) (low b)
    rw [pack_halves, pack_halves] at hmul
    exact (congrArg some hmul).trans h
  case sub => exact (congrArg some (sub_halves a b)).trans h
  case and =>
    exact (congrArg some (hbits (· &&& ·) (· &&& ·) fun _ _ _ _ =>
      BitVec.and_append.symm)).trans h
  case or =>
    exact (congrArg some (hbits (· ||| ·) (· ||| ·) fun _ _ _ _ =>
      BitVec.or_append.symm)).trans h
  case xor =>
    exact (congrArg some (hbits (· ^^^ ·) (· ^^^ ·) fun _ _ _ _ =>
      BitVec.xor_append.symm)).trans h
  case div | pdiv => exact (divdi3_eq a b).trans (hdiv _ h)
  case mod => exact (moddi3_eq a b).trans (hdiv _ h)
  case udiv => exact (udivdi3_eq a b).trans h
  case umod => exact (umoddi3_eq a b).trans h
  case shl | shr | sar =>
    obtain ⟨hlt, rfl⟩ := hshift rfl h
    exact genOpl_shift rfl (fun hc => hzero hc rfl) hlt
  case land | lor => cases h
  all_goals exact (htest rfl).trans h

/-- **The code for an operation on `long long` values computes it**, whenever C
gives it a meaning.  A shift by the constant zero does not come here: it is
filtered out before. -/
theorem genOpl_refines {isConst : Bool} {op : Op} {a b r : DWord}
    (hzero : isConst = true → op.isShift = true → count b ≠ 0)
    (h : wordOp op a b = some r) : genOpl isConst op a b = some r :=
  genOpl_eq hzero h

/-- A shift by more than a word. -/
theorem genOpl_shl_33 : genOpl true .shl 5 33 = some (5 <<< 33) :=
  genOpl_refines (by decide) rfl

end Bucktoot.Ports.GenOp
