import Bucktoot.Ports.GenOpReduce

/-!
# Conversions

* `Fits`, `convert` — the integers of a type and the conversion to it;
* `Holds` — an entry of the value stack stands for an integer of its type;
* `castConst_holds`, `castWide_holds` — what `gen_cast` does with a constant,
  and with any value where the type is one that operations are done in;
* `stdOp_holds` — an operation after the casts of its operands;
* `genCast_holds` — the whole of `gen_cast`.
-/

namespace Bucktoot.Ports.GenOp

open Bucktoot.Verified
open Bucktoot.Verified.Words
open Bucktoot.Ports.Libtcc1

/-- The integers of a type. -/
def Fits (t : CType) (x : Int) : Prop :=
  if t = .bool then x = 0 ∨ x = 1 else InRange t.unsigned t.bits x

/-- An operation is done in this type. -/
def CType.isWide : CType → Bool
  | .int _ | .llong _ | .ptr _ => true
  | _ => false

section Fits

variable {t : CType} {x y : Int}

theorem bits_pos (t : CType) : 0 < t.bits := by
  cases t <;> exact Nat.succ_pos _

theorem bits_eq_width (h : t.isWide = true) : t.bits = t.width := by
  cases t with
  | int u => rfl
  | llong u => rfl
  | ptr p => rfl
  | bool => cases h
  | byte u => cases h
  | short u => cases h

theorem ne_bool_of_isWide (h : t.isWide = true) : t ≠ .bool := by
  rintro rfl
  cases h

theorem convert_fits (t : CType) (x : Int) : Fits t (convert t x) := by
  rw [Fits, convert]
  split
  · split
    · exact .inl rfl
    · exact .inr rfl
  · exact wrap_inRange _ (bits_pos t) x

theorem convert_of_fits (h : Fits t x) : convert t x = x := by
  rw [Fits] at h
  rw [convert]
  split
  · case isTrue ht =>
      rw [if_pos ht] at h
      rcases h with rfl | rfl <;> rfl
  · case isFalse ht =>
      rw [if_neg ht] at h
      exact wrap_of_inRange (bits_pos t) h

theorem convert_wide (h : t.isWide = true) (x : Int) :
    convert t x = wrap t.unsigned t.width x := by
  rw [convert, if_neg (ne_bool_of_isWide h), bits_eq_width h]

theorem ofInt_convert (h : t.isWide = true) (x : Int) :
    BitVec.ofInt t.width (convert t x) = BitVec.ofInt t.width x := by
  rw [convert_wide h, ofInt_wrap]

theorem convert_congr (ht : t.isWide = true)
    (h : BitVec.ofInt t.width x = BitVec.ofInt t.width y) : convert t x = convert t y := by
  rw [convert_wide ht, convert_wide ht]
  exact wrap_congr (by have := width_le t; omega) h

/-- The upper part of a word is the sign, of an unsigned type zeros. -/
theorem inRange_of_fits (h : Fits t x) : InRange t.unsigned t.width x := by
  rw [Fits] at h
  split at h
  · case isTrue ht =>
      subst ht
      rcases h with rfl | rfl <;> exact inRange_signed.2 (by decide)
  · have hle : t.bits ≤ t.width := by cases t <;> simp [CType.bits, CType.width,
      CType.isLLong]
    exact inRange_mono hle h

/-- A type that is not `unsigned int` has its values in an `int`. -/
theorem inRange_int (h : Fits t x) (hl : t.isLLong = false) (hu : t ≠ .int true) :
    InRange false 32 x := by
  have hsmall {k : Nat} (hk : k ≤ 31) (hx : InRange true k x) : InRange false 32 x := by
    have hwide := inRange_mono hk hx
    exact inRange_signed.2 ⟨by have := hwide.1; omega, hwide.2⟩
  have hsigned {k : Nat} (hk : k ≤ 32) (hx : InRange false k x) : InRange false 32 x :=
    inRange_mono hk hx
  cases t with
  | bool => rcases h with rfl | rfl <;> exact inRange_signed.2 (by decide)
  | byte u =>
      cases u with
      | true => exact hsmall (by decide) h
      | false => exact hsigned (by decide) h
  | short u =>
      cases u with
      | true => exact hsmall (by decide) h
      | false => exact hsigned (by decide) h
  | int u =>
      cases u with
      | true => exact absurd rfl hu
      | false => exact hsigned (by decide) h
  | llong u => cases hl
  | ptr p => exact hsigned (Nat.le_refl 32) h

end Fits

/-- The entry stands for an integer of its type.  An address with an offset has
32 bits. -/
structure Holds (env : Env) (a : SValue) (x : Int) : Prop where
  fits : Fits a.t x
  stands : Stands env a.t.width a.v x
  narrow : a.v.addend?.isSome = true → a.t.isLLong = false

section Cast

variable {env : Env} {a b : SValue} {t : CType} {x y z : Int} {i : DWord}

theorem stands_low {v : Value} {w k : Nat} (hk : k ≤ w) (h : Stands env w v x) :
    Stands env k v x := by
  obtain ⟨l, hl, hx⟩ := h
  refine ⟨l, hl, ?_⟩
  rw [← ofInt_setWidth hk, ← hx, BitVec.setWidth_setWidth_of_le l hk]

theorem holds_const (h : Fits t x) (hi : i = BitVec.ofInt 64 x) :
    Holds env ⟨t, .const i⟩ x :=
  ⟨h, ⟨i, rfl, by rw [hi, ofInt_setWidth (width_le t).2]⟩, fun h => by cases h⟩

/-- The word of a constant that is masked to the bits of a type. -/
theorem masked_eq {k : Nat} (h0 : 0 < k) (hk : k ≤ 64) (u : Bool) (x : Int) :
    (if u then BitVec.ofInt 64 x &&& BitVec.ofNat 64 (2 ^ k - 1)
      else (BitVec.ofInt 64 x &&& BitVec.ofNat 64 (2 ^ k - 1)) |||
        -(BitVec.ofInt 64 x &&& BitVec.twoPow 64 (k - 1))) =
      BitVec.ofInt 64 (wrap u k x) := by
  have hrange := wrap_inRange u h0 x
  have hlow := ofInt_wrap (w := k) u x
  cases u with
  | true =>
      rw [if_pos rfl, and_mask hk, ofInt_setWidth hk, ← hlow, ofInt_zeroExtend hk hrange]
  | false =>
      rw [if_neg Bool.false_ne_true, or_neg_mask h0 hk, ofInt_setWidth hk, ← hlow,
        ofInt_signExtend h0 hk hrange]

/-- A constant keeps its value as far as it fits the type. -/
theorem castConst_eq (h : Holds env ⟨t, .const i⟩ x) (d : CType) :
    castConst t d i = BitVec.ofInt 64 (convert d x) := by
  have hnorm : norm t i = BitVec.ofInt 64 x :=
    (const_of_stands (inRange_of_fits h.fits) h.stands (v := .const i) rfl)
  have hmask (k : Nat) (h0 : 0 < k) (hk : k ≤ 64) (m : DWord)
      (hm : m = BitVec.ofNat 64 (2 ^ k - 1))
      (hsign : m &&& ((m >>> 1) + 1) = BitVec.twoPow 64 (k - 1)) (u : Bool) :
      (if u then norm t i &&& m else (norm t i &&& m) |||
        -((norm t i &&& m) &&& ((m >>> 1) + 1))) = BitVec.ofInt 64 (wrap u k x) := by
    rw [BitVec.and_assoc, hsign, hnorm, hm, masked_eq h0 hk]
  cases d with
  | llong u =>
      exact hnorm.trans (ofInt_convert (t := .llong u) rfl x).symm
  | bool =>
      have hzero : (0 : DWord) = BitVec.ofInt 64 0 := rfl
      have hrange := inRange_mono (width_le t).2 (inRange_of_fits h.fits)
      have hiff : BitVec.ofInt 64 x = 0 ↔ x = 0 := by
        rw [hzero, ofInt_inj (by decide) hrange (zero_inRange _ 64)]
      have htruth : decide (BitVec.ofInt 64 x ≠ 0) = decide (x ≠ 0) := by
        rw [decide_eq_decide, ne_eq, hiff]
      show truth (norm t i ≠ 0) = _
      rw [hnorm, htruth, convert, if_pos rfl, ofInt_truth]
      by_cases hx : x = 0 <;> simp [hx]
  | byte u => exact hmask 8 (by decide) (by decide) 0xff rfl rfl u
  | short u => exact hmask 16 (by decide) (by decide) 0xffff rfl rfl u
  | int u => exact hmask 32 (by decide) (by decide) 0xffffffff rfl rfl u
  | ptr p => exact hmask 32 (by decide) (by decide) 0xffffffff rfl rfl false

theorem castConst_holds (h : Holds env ⟨t, .const i⟩ x) (d : CType) :
    Holds env ⟨d, .const (castConst t d i)⟩ (convert d x) :=
  holds_const (convert_fits d x) (castConst_eq h d)

theorem convert_same (h : a.t.same t = true) (hx : Fits a.t x) : convert t x = x := by
  have heq : convert t x = convert a.t x := by
    cases ha : a.t with
    | ptr p =>
        rw [ha] at h
        cases t with
        | ptr q => rfl
        | bool => cases h
        | byte u => cases h
        | short u => cases h
        | int u => cases h
        | llong u => cases h
    | bool | byte u | short u | int u | llong u =>
        rw [ha, CType.same, decide_eq_true_iff] at h
        · rw [h]
        · simp
  rw [heq, convert_of_fits hx]

theorem same_isLLong {s t : CType} (h : s.same t = true) : s.isLLong = t.isLLong := by
  cases s with
  | ptr p =>
      cases t with
      | ptr q => rfl
      | bool => cases h
      | byte u => cases h
      | short u => cases h
      | int u => cases h
      | llong u => cases h
  | bool | byte u | short u | int u | llong u =>
      rw [CType.same, decide_eq_true_iff] at h
      · rw [h]
      · simp

theorem holds_same (ha : Holds env a x) (h : a.t.same t = true) :
    Holds env ⟨t, a.v⟩ (convert t x) := by
  have hl := same_isLLong h
  have hx := convert_same h ha.fits
  have hw : t.width = a.t.width := by rw [CType.width, CType.width, hl]
  refine ⟨convert_fits t x, ?_, fun hadd => hl ▸ ha.narrow hadd⟩
  rw [hx]
  show Stands env t.width a.v x
  rw [hw]
  exact ha.stands

/-- The cast of an operand. -/
theorem castWide_holds (ha : Holds env a x) (ht : t.isWide = true) :
    (castWide t a).t = t ∧ Holds env (castWide t a) (convert t x) := by
  have hbits : BitVec.ofInt t.width x = BitVec.ofInt t.width (convert t x) :=
    (ofInt_convert ht x).symm
  rw [castWide]
  split
  · case isTrue hsame => exact ⟨rfl, holds_same ha hsame⟩
  split
  · case _ i hi =>
      obtain ⟨s, v⟩ := a
      cases v with
      | const j =>
          cases hi
          exact ⟨rfl, castConst_holds ha t⟩
      | sym s j => cases hi
      | frame j => cases hi
      | var s x => cases hi
      | opi op a b => cases hi
      | opl op a b => cases hi
      | widen s a => cases hi
  split
  · case isTrue hlong =>
      obtain ⟨hl, hs⟩ := Bool.and_eq_true_iff.1 hlong
      rw [Bool.not_eq_true'] at hs
      have hw : t.width = 64 := by rw [CType.width, hl, if_pos rfl]
      have hsw : a.t.width = 32 := by rw [CType.width, hs, if_neg Bool.false_ne_true]
      refine ⟨rfl, convert_fits t x, stands_congr hbits ?_, fun h => by cases h⟩
      obtain ⟨l, hl, hx⟩ := ha.stands
      rw [hsw] at hx
      have hlow : low l = BitVec.ofInt 32 x := hx
      have hrange := inRange_of_fits ha.fits
      show Stands env t.width _ x
      rw [hw]
      refine ⟨_, by rw [Value.word, hl]; rfl, ?_⟩
      rw [BitVec.setWidth_eq, hlow]
      by_cases hu : a.t = .int true
      · have hxu : InRange true 32 x := by
          rw [hu] at hrange
          exact hrange
        rw [decide_eq_true hu, if_pos rfl, ofInt_zeroExtend (by decide) hxu]
      · rw [decide_eq_false hu, if_neg Bool.false_ne_true,
          ofInt_signExtend (by decide) (by decide) (inRange_int ha.fits hs hu)]
  · case isFalse hlong =>
      have hle : t.width ≤ a.t.width := by
        rw [CType.width, CType.width]
        cases ht : t.isLLong with
        | false =>
            rw [if_neg Bool.false_ne_true]
            split <;> decide
        | true =>
            cases hs : a.t.isLLong with
            | true => exact Nat.le_refl _
            | false =>
                rw [ht, hs] at hlong
                exact absurd rfl hlong
      refine ⟨rfl, convert_fits t x, stands_congr hbits (stands_low hle ha.stands), ?_⟩
      intro hadd
      have hs := ha.narrow hadd
      cases ht : t.isLLong with
      | false => rfl
      | true =>
          rw [ht, hs] at hlong
          exact absurd rfl hlong

end Cast

/-! ## `gen_op` for integers -/

section Operations

variable {env : Env} {op : Op} {a b : SValue} {t : CType}
  {x y y' z : Int} {u : Bool} (cw : Bool)

theorem intOp_unsignedOp (w : Nat) (op : Op) (x y : Int) :
    intOp w (unsignedOp op) x y = intOp w op x y := by
  cases op <;> rfl

theorem unsignedOp_isShift (op : Op) : (unsignedOp op).isShift = op.isShift := by
  cases op <;> rfl

theorem unsignedOp_reads (h : op.reads ≠ some true) (hp : op ≠ .pdiv) :
    (unsignedOp op).reads ≠ some false := by
  cases op
  case pdiv => exact absurd rfl hp
  all_goals simp_all [unsignedOp, Op.reads]

/-- The type of what an operation in `t` gives. -/
def resultType (op : Op) (t : CType) : CType := if op.isTest then .int false else t

/-- The result of an operation in `t`. -/
theorem holds_result {v : Value} (ht : t.isWide = true)
    (hv : Stands env t.width v z)
    (hnarrow : v.addend?.isSome = true → t.isLLong = false) :
    Holds env ⟨resultType op t, v⟩ (convert (resultType op t) z) := by
  refine ⟨convert_fits _ z, ?_, ?_⟩
  · have hwide : (resultType op t).isWide = true := by
      rw [resultType]
      split
      · rfl
      · exact ht
    have hle : (resultType op t).width ≤ t.width := by
      rw [resultType]
      split
      · exact (width_le t).1
      · exact Nat.le_refl _
    exact stands_congr (ofInt_convert hwide z).symm (stands_low hle hv)
  · intro hadd
    rw [resultType]
    split
    · rfl
    · exact hnarrow hadd

/-- The types of `std_op`. -/
def CType.isInt : CType → Bool
  | .int _ | .llong _ => true
  | _ => false

theorem isWide_of_isInt (h : t.isInt = true) : t.isWide = true := by
  cases t with
  | int u => rfl
  | llong u => rfl
  | ptr p => cases h
  | bool => cases h
  | byte u => cases h
  | short u => cases h

/-- The operator behind `std_op`. -/
def typedOp (t : CType) (op : Op) : Op :=
  if t.unsigned then unsignedOp op else op

theorem typedOp_isShift (t : CType) (op : Op) :
    (typedOp t op).isShift = op.isShift := by
  rw [typedOp]
  split
  · exact unsignedOp_isShift op
  · rfl

theorem intOp_typedOp (t : CType) (w : Nat) (op : Op) (x y : Int) :
    intOp w (typedOp t op) x y = intOp w op x y := by
  rw [typedOp]
  split
  · exact intOp_unsignedOp w op x y
  · rfl

theorem resultType_typedOp (t : CType) (op : Op) :
    resultType (typedOp t op) t = resultType op t := by
  rw [typedOp]
  split
  · cases op <;> rfl
  · rfl

/-- It reads its operands as their type does. -/
theorem typedOp_reads (hop : op.reads ≠ some true)
    (hp : op = .pdiv → t.unsigned = false) :
    (typedOp t op).reads ≠ some !t.unsigned := by
  rw [typedOp]
  cases hu : t.unsigned with
  | true =>
      refine unsignedOp_reads hop ?_
      rintro rfl
      rw [hp rfl] at hu
      cases hu
  | false => exact hop

/-- The type of the second operand behind `std_op`. -/
def secondType (op : Op) (t : CType) : CType :=
  if op.isShift then .int false else t

theorem secondType_isWide (op : Op) (ht : t.isWide = true) :
    (secondType op t).isWide = true := by
  rw [secondType]
  split
  · rfl
  · exact ht

theorem secondType_isLLong (op : Op) (t : CType) :
    (secondType op t).isLLong = (!op.isShift && t.isLLong) := by
  rw [secondType]
  cases op.isShift <;> rfl

/-- A count of a shift has its value in `int` as well. -/
theorem convert_secondType {w : Nat} (hw : w ≤ 64)
    (hz : intOp w op x (if op.isShift then y else convert t y) = some z) :
    (if op.isShift then y else convert t y) = convert (secondType op t) y := by
  rw [secondType]
  cases hs : op.isShift with
  | false => rfl
  | true =>
      rw [hs, if_pos rfl] at hz
      obtain ⟨h0, hlt⟩ := count_range hs hz
      have hfits : Fits (.int false) y :=
        show InRange false 32 y from inRange_signed.2 ⟨by omega, by omega⟩
      rw [if_pos rfl, if_pos rfl, convert_of_fits hfits]

theorem isShift_of_modular (h : op.modular = false) : op.isShift = false := by
  cases op
  case shl | shr | sar => cases h
  all_goals rfl

/-- The operands are ready for `gen_opic` once they are cast. -/
theorem stdOp_ready (hw : t.isWide = true) (hop : op.reads ≠ some true)
    (hp : op = .pdiv → t.unsigned = false) (ha : Holds env a x)
    (hb : Holds env b y) :
    Ready env (typedOp t op) t (secondType op t) (castWide t a).v
      (castWide (secondType op t) b).v (convert t x)
      (convert (secondType op t) y) := by
  obtain ⟨hat, ha'⟩ := castWide_holds ha hw
  obtain ⟨hbt, hb'⟩ := castWide_holds hb (secondType_isWide op hw)
  refine ⟨?_, typedOp_reads hop hp, inRange_of_fits (convert_fits t x),
    inRange_of_fits (convert_fits _ y), ?_, ?_, ?_, ?_, ?_⟩
  · rw [typedOp_isShift, secondType_isLLong]
  · intro hmod
    have hs := isShift_of_modular hmod
    rw [typedOp_isShift] at hs
    rw [secondType, hs]
    exact inRange_of_fits (convert_fits t y)
  · have hstands := ha'.stands
    rwa [hat] at hstands
  · have hstands := hb'.stands
    rwa [hbt] at hstands
  · have hnarrow := ha'.narrow
    rwa [hat] at hnarrow
  · have hnarrow := hb'.narrow
    rwa [hbt] at hnarrow

/-- `std_op` by its parts. -/
theorem stdOp_eq (cw : Bool) (op : Op) (t : CType) (a b : SValue) :
    stdOp cw op t a b
      = (genOpic cw (typedOp t op) (castWide t a).t
          (castWide (secondType op t) b).t (castWide t a).v
          (castWide (secondType op t) b).v).map fun v => ⟨resultType op t, v⟩ := by
  rw [← resultType_typedOp, secondType, ← typedOp_isShift t op]
  rfl

/-- **An operation after the casts of its operands.** -/
theorem stdOp_holds (ht : t.isInt = true) (hop : op.reads ≠ some true)
    (hp : op = .pdiv → t.unsigned = false) (ha : Holds env a x) (hb : Holds env b y)
    (hy' : (if op.isShift then y else convert t y) = y')
    (hz : intOp t.width op (convert t x) y' = some z) :
    ∃ c, stdOp cw op t a b = .ok c ∧ c.t = resultType op t ∧
      Holds env c (convert c.t z) := by
  subst hy'
  have hw := isWide_of_isInt ht
  have hready := stdOp_ready hw hop hp ha hb
  rw [convert_secondType (width_le t).2 hz, ← intOp_typedOp t] at hz
  obtain ⟨v, hv, hstands⟩ := genOpic_stands cw hready hz
  refine ⟨⟨resultType op t, v⟩, ?_, rfl, holds_result hw hstands ?_⟩
  · rw [stdOp_eq, (castWide_holds ha hw).1,
      (castWide_holds hb (secondType_isWide op hw)).1, hv]
    rfl
  · -- a sum with an address is as wide as the address
    intro hadd
    obtain ⟨-, h | ⟨hs, h⟩⟩ := addend_address.genOpic hv hadd
    · exact hready.narrow1 h
    · have hl := hready.narrow2 h
      rw [hready.wide, hs] at hl
      exact hl

theorem opType_isInt (op : Op) (s t : CType) : (opType op s t).isInt = true := by
  rw [opType]
  split
  · split <;> rfl
  · split <;> rfl

theorem genOpInt_holds (ht : opType op a.t b.t = t) (hop : op.reads ≠ some true)
    (hp : op = .pdiv → t.unsigned = false) (ha : Holds env a x) (hb : Holds env b y)
    (hy' : (if op.isShift then y else convert t y) = y')
    (hz : intOp t.width op (convert t x) y' = some z) :
    ∃ c, genOpInt cw op a b = .ok c ∧ c.t = resultType op t ∧
      Holds env c (convert c.t z) := by
  subst ht
  exact stdOp_holds cw (opType_isInt op a.t b.t) hop hp ha hb hy' hz

theorem vpushi_holds {i : Word} (h : i = BitVec.ofInt 32 x) (hx : InRange false 32 x) :
    Holds env (vpushi i) x :=
  holds_const (t := .int false) hx
    (by rw [h, ofInt_signExtend (by decide) (by decide) hx])

/-! ## `force_charshort_cast` -/

/-- Shifted to the left and back, a word keeps its lowest bits with their sign. -/
theorem bmod_shift {w k : Nat} (h0 : 0 < k) (hk : k ≤ w) (x : Int) :
    (x * 2 ^ (w - k)).bmod (2 ^ w) / 2 ^ (w - k) = x.bmod (2 ^ k) := by
  have hpow : (2 ^ w : Nat) = 2 ^ (w - k) * 2 ^ k := by
    rw [← pow_add, Nat.sub_add_cancel hk]
  have hcast : ((2 ^ (w - k) : Nat) : Int) = 2 ^ (w - k) := by push_cast; rfl
  have hpos : (0 : Int) < 2 ^ (w - k) := pow_pos (by decide) _
  have hmul := Int.mod_bmod_mul_of_pos x (2 ^ k) (Nat.two_pow_pos (w - k))
    (dvd_pow_self 2 h0.ne')
  rw [hcast, ← hpow, Int.mul_comm] at hmul
  rw [hmul, Int.mul_ediv_cancel_left _ hpos.ne']

theorem ofInt_and_mask {k : Nat} (h0 : 0 < k) (hk : k ≤ 32) (x : Int) :
    BitVec.ofInt 32 (bitwise (· &&& ·) x (2 ^ k - 1)) =
      BitVec.ofInt 32 (wrap true k x) := by
  have hcast : ((2 ^ k - 1 : Nat) : Int) = 2 ^ k - 1 := by
    rw [Nat.cast_sub Nat.one_le_two_pow]
    push_cast
    rfl
  have hmask := masked_eq h0 (show k ≤ 64 by omega) true x
  rw [if_pos rfl] at hmask
  rw [bitwise, ← hcast, BitVec.ofInt_natCast, hmask, BitVec.toInt_ofInt]
  have hlow := ofInt_wrap (w := 64) false (wrap true k x)
  rw [← ofInt_setWidth (w := 64) (by decide)]
  exact (congrArg (BitVec.setWidth 32) hlow).trans (ofInt_setWidth (by decide) _)

theorem opType_small {k : Int} (op : Op) (s t : CType) (h0 : 0 ≤ k) (hk : k < 2 ^ 31) :
    convert (opType op s t) k = k := by
  have hwide (u : Bool) {w : Nat} (hw : 32 ≤ w) : InRange u w k := by
    cases u with
    | true => exact inRange_mono hw (inRange_unsigned.2 ⟨h0, by omega⟩)
    | false => exact inRange_mono hw (inRange_signed.2 ⟨by omega, by omega⟩)
  have ht := isWide_of_isInt (opType_isInt op s t)
  rw [convert_wide ht]
  exact wrap_of_inRange (by have := width_le (opType op s t); omega)
    (hwide _ (width_le _).1)

theorem forceCharshort_unsigned {k : Nat} {i : Word} (h0 : 0 < k) (hk : k ≤ 16)
    (hi : i = BitVec.ofInt 32 (2 ^ k - 1)) (ha : Holds env a x) :
    ∃ c, genOpInt cw .and a (vpushi i) = .ok c ∧ Stands env 32 c.v (wrap true k x) := by
  have hone : (1 : Int) ≤ 2 ^ k := Int.add_one_le_of_lt (pow_pos (by decide) _)
  have hle : (2 : Int) ^ k ≤ 2 ^ 16 := pow_le_pow_right₀ (by decide) hk
  have hb : Holds env (vpushi i) (2 ^ k - 1) :=
    vpushi_holds hi (inRange_signed.2 ⟨by omega, by omega⟩)
  obtain ⟨t, htype⟩ : ∃ t, opType .and a.t (vpushi i).t = t := ⟨_, rfl⟩
  have ht : t.isWide = true := htype ▸ isWide_of_isInt (opType_isInt _ _ _)
  have hmask : convert t (2 ^ k - 1) = 2 ^ k - 1 :=
    htype ▸ opType_small _ _ _ (by omega) (by omega)
  obtain ⟨c, hc, hct, hholds⟩ := genOpInt_holds cw htype (by decide)
    (fun h => by cases h) ha hb hmask rfl
  refine ⟨c, hc, stands_congr ?_ (stands_low (width_le c.t).1 hholds.stands)⟩
  have hrt : c.t = t := hct
  rw [hrt, ← ofInt_setWidth (width_le t).1, ofInt_convert ht,
    ofInt_setWidth (width_le t).1, ofInt_and_mask h0 (by omega), convert_wide ht,
    wrap_wrap h0 (by have := width_le t; omega)]

/-- The type that the left shift leaves, made signed. -/
theorem signed_type (t : CType) :
    (if t.isLLong then CType.llong false else .int false).isInt = true ∧
      (if t.isLLong then CType.llong false else .int false).unsigned = false ∧
      (if t.isLLong then CType.llong false else .int false).isLLong = t.isLLong := by
  cases t.isLLong <;> exact ⟨rfl, rfl, rfl⟩

/-- A value shifted up to the top of a word and back has its low bits, with
their sign. -/
theorem convert_shift_back {w k : Nat} (h0 : 0 < k) (hk : k ≤ w) {s c t : CType}
    (hs : s.isWide = true) (hsu : s.unsigned = false) (hsw : s.width = w)
    (hc : c.isWide = true) (hcw : c.width = w) (ht : t.isWide = true)
    (htw : t.width = w) (x : Int) :
    convert s (convert s (convert c (convert t x * 2 ^ (w - k)))) / 2 ^ (w - k) =
      wrap false k x := by
  have hw : 0 < w := Nat.lt_of_lt_of_le h0 hk
  rw [convert_of_fits (convert_fits s _), convert_wide hs, hsu, hsw,
    convert_wide hc, hcw, wrap_wrap hw (Nat.le_refl w)]
  refine (bmod_shift h0 hk _).trans ?_
  rw [convert_wide ht, htw]
  show wrap false k (wrap t.unsigned w x) = wrap false k x
  exact wrap_wrap h0 hk x

/-- A shift of a signed word keeps its type. -/
theorem opType_sar {s : CType} (hs : s.isInt = true) (hsu : s.unsigned = false)
    (t : CType) : opType .sar s t = s := by
  cases s with
  | int u =>
      obtain rfl : u = false := hsu
      rfl
  | llong u =>
      obtain rfl : u = false := hsu
      rfl
  | bool => cases hs
  | byte u => cases hs
  | short u => cases hs
  | ptr p => cases hs

theorem forceCharshort_signed {k : Nat} {i : Word} (h0 : 0 < k) (hk : k ≤ 16)
    (hi : i = BitVec.ofInt 32 (a.t.width - k)) (ha : Holds env a x) :
    ∃ c d, genOpInt cw .shl a (vpushi i) = .ok c ∧
      genOpInt cw .sar ⟨if c.t.isLLong then .llong false else .int false, c.v⟩
        (vpushi i) = .ok d ∧ Stands env 32 d.v (wrap false k x) := by
  have hwa := width_le a.t
  have hb : Holds env (vpushi i) (a.t.width - k) :=
    vpushi_holds hi (inRange_signed.2 ⟨by omega, by omega⟩)
  have hnat : ((a.t.width : Int) - k).toNat = a.t.width - k := by omega
  have hcount : (0 : Int) ≤ a.t.width - k ∧ (a.t.width - k : Int) < a.t.width := by
    omega
  obtain ⟨t, htype⟩ : ∃ t, opType .shl a.t (vpushi i).t = t := ⟨_, rfl⟩
  have ht : t.isWide = true := htype ▸ isWide_of_isInt (opType_isInt _ _ _)
  have hwidth : t.width = a.t.width := by
    subst htype
    show (if a.t.isLLong then CType.llong _ else CType.int _ : CType).width = _
    rw [CType.width, CType.width]
    cases a.t.isLLong <;> rfl
  have hshl : intOp t.width .shl (convert t x) (a.t.width - k) =
      some (convert t x * 2 ^ (a.t.width - k)) := by
    rw [hwidth, intOp, if_pos hcount, hnat]
  obtain ⟨c, hc, hct, hholds⟩ := genOpInt_holds cw htype (by decide)
    (fun h => by cases h) ha hb rfl hshl
  have hrt : c.t = t := hct
  refine ⟨c, ?_⟩
  obtain ⟨hs, hsu, hsl⟩ := signed_type c.t
  generalize (if c.t.isLLong then CType.llong false else .int false) = s at hs hsu hsl ⊢
  have hsame : s.width = c.t.width := by rw [CType.width, CType.width, hsl]
  have hsw : s.width = a.t.width := by rw [hsame, hrt, hwidth]
  have hsigned : Holds env ⟨s, c.v⟩ (convert s (convert c.t (convert t x *
      2 ^ (a.t.width - k)))) := by
    refine ⟨convert_fits s _, ?_, fun hadd => hsl.trans (hholds.narrow hadd)⟩
    refine stands_congr (ofInt_convert (isWide_of_isInt hs) _).symm ?_
    show Stands env s.width c.v _
    rw [hsame]
    exact hholds.stands
  have hback := convert_shift_back h0 (show k ≤ a.t.width by omega)
    (isWide_of_isInt hs) hsu hsw (hrt ▸ ht) (hrt ▸ hwidth) ht hwidth x
  have hsar : intOp s.width .sar (convert s (convert s (convert c.t (convert t x *
      2 ^ (a.t.width - k))))) (a.t.width - k) = some (wrap false k x) := by
    rw [hsw, intOp, if_pos hcount, hnat, hback]
  obtain ⟨d, hd, hdt, hholds'⟩ := genOpInt_holds cw
    (opType_sar hs hsu (vpushi i).t) (by decide)
    (fun h => by cases h) hsigned hb rfl hsar
  refine ⟨d, hc, hd, stands_congr ?_ (stands_low (width_le d.t).1 hholds'.stands)⟩
  have hds : d.t = s := hdt
  rw [hds, ← ofInt_setWidth (width_le s).1, ofInt_convert (isWide_of_isInt hs),
    ofInt_setWidth (width_le s).1]

theorem forceCharshort_stands (ht : t = .byte u ∨ t = .short u)
    (ha : Holds env a x) :
    ∃ c, forceCharshortCast cw t a = .ok c ∧ Stands env 32 c.v (convert t x) := by
  have hbits (k : Nat) (hk : k = 8 ∨ k = 16) :
      ∃ c, (if u then genOpInt cw .and a (vpushi ((1 <<< k) - 1)) else do
          let b ← genOpInt cw .shl a
            (vpushi (BitVec.ofNat 32 ((if a.t.isLLong then 64 else 32) - k)))
          genOpInt cw .sar ⟨if b.t.isLLong then .llong false else .int false, b.v⟩
            (vpushi (BitVec.ofNat 32 ((if a.t.isLLong then 64 else 32) - k)))) =
        Except.ok c ∧ Stands env 32 c.v (wrap u k x) := by
    cases u with
    | true =>
        rw [if_pos rfl]
        refine forceCharshort_unsigned cw (by omega) (by omega) ?_ ha
        rcases hk with rfl | rfl <;> rfl
    | false =>
        have hw : (if a.t.isLLong then 64 else 32 : Nat) = a.t.width := rfl
        have hi : BitVec.ofNat 32 (a.t.width - k) = BitVec.ofInt 32 (a.t.width - k) := by
          have hle := width_le a.t
          rw [← BitVec.ofInt_natCast, Int.natCast_sub (by omega)]
        rw [if_neg Bool.false_ne_true, hw]
        obtain ⟨c, d, hc, hd, hstands⟩ := forceCharshort_signed cw
          (show 0 < k by omega) (by omega) hi ha
        refine ⟨d, ?_, hstands⟩
        rw [hc]
        exact hd
  rcases ht with rfl | rfl
  · exact hbits 8 (.inl rfl)
  · exact hbits 16 (.inr rfl)

/-! ## `gen_cast` -/

theorem convert_eq_zero {s : CType} (hs : Fits s x) (ht : t.isWide = true)
    (hle : s.width ≤ t.width) : convert t x = 0 ↔ x = 0 := by
  have hpos : 0 < t.width := by have := width_le t; omega
  have hx := inRange_mono hle (inRange_of_fits hs)
  have hword := ofInt_convert ht x
  constructor
  · intro h
    rw [h] at hword
    exact (ofInt_inj hpos hx (zero_inRange _ _)).1 hword.symm
  · rintro rfl
    have hrange := inRange_of_fits (convert_fits t 0)
    exact (ofInt_inj hpos hrange (zero_inRange _ _)).1 hword

theorem genOp_int (ty : Pointees) (op : Op) (h : (a.t.isPtr || b.t.isPtr) = false) :
    genOp ty cw op a b = genOpInt cw op a b := by
  rw [genOp, h, if_neg Bool.false_ne_true]

theorem genOp_test (ty : Pointees) (h : (a.t.isPtr || b.t.isPtr) = true)
    (hop : op.isTest = true) :
    genOp ty cw op a b = (checkComparison ty op a b).bind fun _ =>
      stdOp cw op (.int true) a b := by
  rw [genOp, h, if_pos rfl, if_pos hop]
  rfl

/-- A test for zero. -/
theorem genOp_ne_zero (ty : Pointees) (ha : Holds env a x) :
    ∃ c, genOp ty cw .ne a (vpushi 0) = .ok c ∧ c.t = .int false ∧
      Holds env c (if x = 0 then 0 else 1) := by
  have h0 : Holds env (vpushi 0) 0 :=
    vpushi_holds rfl (inRange_signed.2 ⟨by decide, by decide⟩)
  have htest {t : CType} (ht : t.isInt = true) (hle : a.t.width ≤ t.width) :
      ∃ c, stdOp cw .ne t a (vpushi 0) = .ok c ∧ c.t = .int false ∧
        Holds env c (if x = 0 then 0 else 1) := by
    have hw := isWide_of_isInt ht
    have hzero : convert t 0 = 0 := (convert_eq_zero h0.fits hw (width_le t).1).2 rfl
    have hx := convert_eq_zero ha.fits hw hle
    have hz : intOp t.width .ne (convert t x) 0 = some (if x = 0 then 0 else 1) := by
      by_cases h : x = 0
      · rw [if_pos h, hx.2 h]
        rfl
      · rw [if_neg h]
        exact congrArg some (if_pos (decide_eq_true (mt hx.1 h)))
    obtain ⟨c, hc, hct, hholds⟩ := stdOp_holds cw ht
      (show Op.ne.reads ≠ some true by decide) (fun h => by cases h) ha h0 hzero hz
    refine ⟨c, hc, hct, ?_⟩
    have hfits : Fits (.int false) (if x = 0 then 0 else 1) := by
      split <;> exact inRange_signed.2 ⟨by decide, by decide⟩
    have hint : c.t = .int false := hct
    rw [hint, convert_of_fits hfits] at hholds
    exact hholds
  cases hp : a.t.isPtr with
  | true =>
      have hwidth : a.t.width ≤ 32 := by
        cases ha : a.t with
        | ptr p => exact Nat.le_refl 32
        | bool | byte u | short u | int u | llong u =>
            rw [ha] at hp
            cases hp
      have hcheck : checkComparison ty .ne a (vpushi 0) = .ok () := by
        rw [checkComparison, if_pos]
        rw [Bool.or_eq_true]
        exact .inr rfl
      obtain ⟨c, hc, hrest⟩ := htest (t := .int true) rfl hwidth
      refine ⟨c, ?_, hrest⟩
      rw [genOp_test cw ty (by rw [hp]; rfl) rfl, hcheck]
      exact hc
  | false =>
      have hle : a.t.width ≤ (opType .ne a.t (vpushi 0).t).width := by
        show _ ≤ (if a.t.isLLong || false then CType.llong _ else CType.int _ :
          CType).width
        rw [CType.width, CType.width]
        cases a.t.isLLong <;> exact Nat.le_refl _
      obtain ⟨c, hc, hrest⟩ := htest (opType_isInt .ne a.t (vpushi 0).t) hle
      refine ⟨c, ?_, hrest⟩
      have hptr : (a.t.isPtr || (vpushi 0).t.isPtr) = false := by
        rw [hp]
        rfl
      rw [genOp_int cw ty .ne hptr]
      exact hc

/-- The address of a symbol. -/
def isSym : Value → Bool
  | .sym _ _ => true
  | _ => false

/-- **A cast is the conversion.** -/
theorem genCast_holds (ty : Pointees) (t : CType) (ha : Holds env a x)
    (hsym : t = .bool → isSym a.v = true → x ≠ 0) :
    ∃ c, genCast ty cw t a = .ok c ∧ c.t = t ∧ Holds env c (convert t x) := by
  obtain ⟨s, v⟩ := a
  unfold genCast
  split
  · case isTrue hsame => exact ⟨_, rfl, rfl, holds_same ha hsame⟩
  have hwide (ht : t.isWide = true) : ∃ c, (.ok (castWide t ⟨s, v⟩) : Except String _) =
      .ok c ∧ c.t = t ∧ Holds env c (convert t x) :=
    ⟨_, rfl, castWide_holds ha ht⟩
  have hbool (ht : t = .bool) : ∃ c,
      (genOp ty cw .ne ⟨s, v⟩ (vpushi 0)).map (fun b => ⟨t, b.v⟩) = .ok c ∧ c.t = t ∧
        Holds env c (convert t x) := by
    obtain ⟨c, hc, hct, hholds⟩ := genOp_ne_zero cw ty ha
    refine ⟨⟨t, c.v⟩, by rw [hc]; rfl, rfl, ?_⟩
    subst ht
    have hstands := hholds.stands
    rw [hct] at hstands
    have hx : convert .bool x = if x = 0 then 0 else 1 := if_pos rfl
    exact ⟨convert_fits _ x, hx ▸ hstands, fun _ => rfl⟩
  have hsmall {u : Bool} (ht : t = .byte u ∨ t = .short u) : ∃ c,
      (forceCharshortCast cw t (if s.isPtr then ⟨.int false, v⟩ else ⟨s, v⟩)).map
        (fun b => ⟨t, b.v⟩) = .ok c ∧ c.t = t ∧ Holds env c (convert t x) := by
    have hint : ∃ a, (if s.isPtr then ⟨.int false, v⟩ else ⟨s, v⟩ : SValue) = a ∧
        Holds env a x := by
      refine ⟨_, rfl, ?_⟩
      cases s with
      | ptr p => exact ⟨ha.fits, ha.stands, ha.narrow⟩
      | bool => exact ha
      | byte u => exact ha
      | short u => exact ha
      | int u => exact ha
      | llong u => exact ha
    obtain ⟨a, haeq, ha⟩ := hint
    obtain ⟨c, hc, hstands⟩ := forceCharshort_stands cw ht ha
    rw [haeq, hc]
    have hl : t.isLLong = false := by rcases ht with rfl | rfl <;> rfl
    have hw : t.width = 32 := by rw [CType.width, hl]; rfl
    refine ⟨⟨t, c.v⟩, rfl, rfl, convert_fits t x, ?_, fun _ => hl⟩
    show Stands env t.width c.v _
    rw [hw]
    exact hstands
  cases v with
  | const i => exact ⟨_, rfl, rfl, castConst_holds ha t⟩
  | sym k i =>
      cases t with
      | bool =>
          have hx : convert .bool x = 1 := (if_pos rfl).trans (if_neg (hsym rfl rfl))
          refine ⟨_, rfl, rfl, ?_⟩
          rw [hx]
          exact holds_const (.inr rfl) rfl
      | byte u => exact hsmall (.inl rfl)
      | short u => exact hsmall (.inr rfl)
      | int u => exact hwide rfl
      | llong u => exact hwide rfl
      | ptr p => exact hwide rfl
  | frame i | var q y | opi op a b | opl op a b | widen u a =>
      cases t with
      | bool => exact hbool rfl
      | byte u => exact hsmall (.inl rfl)
      | short u => exact hsmall (.inr rfl)
      | int u => exact hwide rfl
      | llong u => exact hwide rfl
      | ptr p => exact hwide rfl

end Operations
end Bucktoot.Ports.GenOp
