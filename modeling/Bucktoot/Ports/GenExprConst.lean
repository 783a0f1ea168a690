import Bucktoot.Ports.GenExprSound

/-!
# Constant expressions

Array sizes, enumerators and the labels of a `switch` have to be known when the
script is compiled.

* `Canonical` — a constant with the upper part that its type wants;
* `exprConst_exact` — an expression on literals is computed, whatever it is made
  of.
-/

namespace Bucktoot.Ports.GenOp

open Bucktoot.Verified
open Bucktoot.Verified.Words
open Bucktoot.Ports.Libtcc1

/-! ## Constant expressions -/

/-- An expression on literals only. -/
def Expr.isConst : Expr → Bool
  | .lit _ _ => true
  | .var _ _ | .sym _ _ | .frame _ _ => false
  | .neg a | .com a | .pos a | .cast _ a => a.isConst
  | .bin _ a b => a.isConst && b.isConst

/-- `expr_const64` -/
def exprConst64 (ty : Pointees) (e : Expr) : Except String DWord := do
  let a ← gen ty true e
  match a.v.const? with
  | some c => .ok c
  | none => .error "constant expression expected"

/-- `expr_const` -/
def exprConst (ty : Pointees) (e : Expr) : Except String Word := do
  let wc ← exprConst64 ty e
  let c := low wc
  if c.signExtend 64 ≠ wc ∧ c.setWidth 64 ≠ wc then
    .error "constant exceeds 32 bit"
  else .ok c

section Constants

variable {ty : Pointees} {op : Op} {a b c : SValue} {t : CType} {x : Int}

/-- The entry is a constant, with the upper part that its type wants. -/
def Canonical (a : SValue) : Prop :=
  ∃ x, Fits a.t x ∧ a.v = .const (BitVec.ofInt 64 x)

theorem canonical_of_fits (h : Fits t x) : Canonical ⟨t, .const (BitVec.ofInt 64 x)⟩ :=
  ⟨x, h, rfl⟩

theorem vpushi_canonical (i : Word) : Canonical (vpushi i) := by
  have hrange : InRange false 32 i.toInt := ⟨BitVec.le_toInt i, BitVec.toInt_lt⟩
  refine ⟨i.toInt, hrange, ?_⟩
  have hext := ofInt_signExtend (w := 64) (by decide) (by decide) hrange
  rw [BitVec.ofInt_toInt] at hext
  rw [← hext]
  rfl

/-- A constant that stands for an integer is the word of it. -/
theorem Canonical.eq {env : Env} (h : Canonical a) (hx : Holds env a x) :
    a.v = .const (BitVec.ofInt 64 x) := by
  obtain ⟨y, hy, hv⟩ := h
  obtain ⟨l, hl, hword⟩ := hx.stands
  rw [hv] at hl
  cases hl
  rw [ofInt_setWidth (width_le a.t).2, ofInt_inj (by have := width_le a.t; omega)
    (inRange_of_fits hy) (inRange_of_fits hx.fits)] at hword
  rw [hv, hword]

theorem norm_canonical (ht : t.isWide = true) (l : DWord) :
    Canonical ⟨t, .const (norm t l)⟩ := by
  have hword := ofInt_convert ht l.toInt
  have hagrees : Agrees t l (convert t l.toInt) := by
    rw [Agrees, hword, ← ofInt_setWidth (width_le t).2, BitVec.ofInt_toInt]
  rw [norm_of_agrees hagrees (inRange_of_fits (convert_fits t _))]
  exact canonical_of_fits (convert_fits t _)

theorem castWide_canonical (ha : Canonical a) (t : CType) :
    Canonical (castWide t a) ∧ (castWide t a).t = t := by
  let env : Env := ⟨fun _ => 0, fun _ => 0, 0⟩
  obtain ⟨x, hx, hv⟩ := ha
  obtain ⟨s, v⟩ := a
  cases hv
  have hholds : Holds env ⟨s, .const (BitVec.ofInt 64 x)⟩ x := holds_const hx rfl
  rw [castWide]
  split
  · case isTrue hsame =>
      refine ⟨⟨x, ?_, rfl⟩, rfl⟩
      have hfits := convert_fits t x
      rwa [convert_same (a := ⟨s, _⟩) hsame hx] at hfits
  · exact ⟨⟨convert t x, convert_fits t x, congrArg Value.const (castConst_eq hholds t)⟩, rfl⟩

theorem foldConst_test {shm l1 l2 : DWord} (h : op.isTest = true) :
    ∃ p, foldConst op shm l1 l2 = truth p := by
  cases op
  case ult | uge | eq | ne | ule | ugt | lt | ge | le | gt => exact ⟨_, rfl⟩
  all_goals cases h

theorem truth_canonical (t : CType) (p : Bool) :
    Canonical ⟨.int false, .const (norm t (truth p))⟩ := by
  have hrange (u : Bool) {w : Nat} (hw : 32 ≤ w) :
      InRange u w (if p then 1 else 0) := by
    have hone : (2 : Int) ≤ 2 ^ (w - 1) := by
      have hle : (2 : Int) ^ 1 ≤ 2 ^ (w - 1) := pow_le_pow_right₀ (by decide) (by omega)
      exact hle
    have hle : (2 : Int) ^ (w - 1) ≤ 2 ^ w := pow_le_pow_right₀ (by decide) (by omega)
    cases u with
    | true => exact inRange_unsigned.2 (by split <;> constructor <;> omega)
    | false => exact inRange_signed.2 (by split <;> constructor <;> omega)
  have hagrees : Agrees t (truth p) (if p then 1 else 0) := by
    rw [Agrees, ofInt_truth, ofInt_setWidth (width_le t).2]
  rw [norm_of_agrees hagrees (hrange t.unsigned (width_le t).1)]
  exact canonical_of_fits (t := .int false) (hrange false (Nat.le_refl 32))

/-- Constants give a constant, where a division by zero is an error. -/
theorem genOpic_canonical {t1 t2 : CType} {v1 v2 v : Value} (ht : t1.isWide = true)
    (h1 : ∃ i, v1 = .const i) (h2 : ∃ i, v2 = .const i)
    (hv : genOpic true op t1 t2 v1 v2 = .ok v) : Canonical ⟨resultType op t1, v⟩ := by
  obtain ⟨i, rfl⟩ := h1
  obtain ⟨j, rfl⟩ := h2
  change (if (op.divides && decide (norm t2 j = 0)) = true then
    Except.error "division by zero in constant" else Except.ok (Value.const _)) = _ at hv
  split at hv
  · cases hv
  · cases hv
    rw [resultType]
    split
    · case isTrue htest =>
        obtain ⟨p, hp⟩ := foldConst_test htest
        rw [hp]
        exact truth_canonical t1 p
    · exact norm_canonical ht _

theorem Canonical.const (h : Canonical a) : ∃ i, a.v = .const i := by
  obtain ⟨x, -, hv⟩ := h
  exact ⟨_, hv⟩

theorem stdOp_canonical (ht : t.isInt = true) (ha : Canonical a) (hb : Canonical b)
    (hc : stdOp true op t a b = .ok c) : Canonical c := by
  have htest : resultType (if t.unsigned then unsignedOp op else op) t =
      resultType op t := by
    split
    · cases op <;> rfl
    · rfl
  obtain ⟨ha, hat⟩ := castWide_canonical ha t
  obtain ⟨hb, -⟩ := castWide_canonical hb (if (if t.unsigned then unsignedOp op
    else op).isShift then .int false else t)
  obtain ⟨v, hv, rfl⟩ := map_ok hc
  have hcanon := genOpic_canonical (by rw [hat]; exact isWide_of_isInt ht) ha.const
    hb.const hv
  rw [hat] at hcanon
  exact hcanon

theorem genOpInt_canonical (ha : Canonical a) (hb : Canonical b)
    (hc : genOpInt true op a b = .ok c) : Canonical c :=
  stdOp_canonical (opType_isInt op a.t b.t) ha hb hc

theorem genOpPtr_canonical {p : Nat} (hop : op.isTest = false) (hat : a.t = .ptr p)
    (ha : Canonical a) (hb : Canonical b) (hc : genOpPtr ty true op p a b = .ok c) :
    Canonical c := by
  unfold genOpPtr at hc
  simp only at hc
  split at hc
  · cases hc
  obtain ⟨m, hm, hc⟩ := bind_ok hc
  obtain ⟨v, hv, hc⟩ := bind_ok hc
  cases hc
  have hindex : Canonical (if b.t.isLLong then castWide (.int false) b else b) := by
    split
    · exact (castWide_canonical hb _).1
    · exact hb
  have hmul := genOpInt_canonical hindex (vpushi_canonical _) hm
  have hcanon := genOpic_canonical (by rw [hat]; rfl) ha.const hmul.const hv
  rwa [resultType, hop, hat] at hcanon

theorem genOp_canonical (ha : Canonical a) (hb : Canonical b)
    (hc : genOp ty true op a b = .ok c) : Canonical c := by
  unfold genOp at hc
  split at hc
  case isFalse => exact genOpInt_canonical ha hb hc
  split at hc
  · obtain ⟨-, -, hc⟩ := bind_ok hc
    exact stdOp_canonical rfl ha hb hc
  case isFalse htest =>
  rw [Bool.not_eq_true] at htest
  split at hc
  · case _ p q hat hbt =>
      split at hc
      · cases hc
      · case isFalse hsub =>
          obtain rfl := not_not.1 hsub
          obtain ⟨-, -, hc⟩ := bind_ok hc
          obtain ⟨v, hv, hc⟩ := bind_ok hc
          have hcanon := genOpic_canonical (by rw [hat]; rfl) ha.const hb.const hv
          have hdiff : Canonical ⟨.int false, v⟩ := by
            rw [hat] at hcanon
            exact hcanon
          exact genOpInt_canonical hdiff (vpushi_canonical _) hc
  · case _ p hat hnot =>
      split at hc
      · cases hc
      · exact genOpPtr_canonical htest hat ha hb hc
  · case _ p hbt hnot =>
      split at hc
      · cases hc
      · exact genOpPtr_canonical htest hbt hb ha hc
  · exact genOpInt_canonical ha hb hc

theorem genCast_canonical (ha : Canonical a) (hc : genCast ty true t a = .ok c) :
    Canonical c := by
  let env : Env := ⟨fun _ => 0, fun _ => 0, 0⟩
  obtain ⟨x, hx, hv⟩ := ha
  obtain ⟨s, v⟩ := a
  cases hv
  have hholds : Holds env ⟨s, .const (BitVec.ofInt 64 x)⟩ x := holds_const hx rfl
  unfold genCast at hc
  split at hc
  · case isTrue hsame =>
      cases hc
      have hfits := convert_fits t x
      rw [convert_same (a := ⟨s, _⟩) hsame hx] at hfits
      exact canonical_of_fits hfits
  · cases hc
    rw [castConst_eq hholds t]
    exact canonical_of_fits (convert_fits t x)

theorem gen_canonical {e : Expr} {env : Env} (he : e.isConst = true)
    (hx : eval ty env e = some x) (hc : gen ty true e = .ok c) : Canonical c := by
  induction e generalizing c x with
  | lit t i =>
      rw [eval] at hx
      split at hx
      · case isTrue h =>
          cases hc
          exact canonical_of_fits (h.2 ▸ convert_fits t i)
      · cases hx
  | var t y => cases he
  | sym p s => cases he
  | frame p i => cases he
  | neg e ih =>
      obtain ⟨y, hy, -⟩ := Option.bind_eq_some_iff.1 hx
      obtain ⟨b, hb, hc⟩ := bind_ok hc
      exact genOp_canonical (vpushi_canonical 0) (ih he hy hb) hc
  | com e ih =>
      obtain ⟨y, hy, -⟩ := Option.bind_eq_some_iff.1 hx
      obtain ⟨b, hb, hc⟩ := bind_ok hc
      exact genOp_canonical (ih he hy hb) (vpushi_canonical _) hc
  | pos e ih =>
      obtain ⟨y, hy, -⟩ := Option.bind_eq_some_iff.1 hx
      obtain ⟨b, hb, hc⟩ := bind_ok hc
      split at hc
      · cases hc
      · exact genOp_canonical (ih he hy hb) (vpushi_canonical 0) hc
  | bin op e f ihe ihf =>
      obtain ⟨hce, hcf⟩ := Bool.and_eq_true_iff.1 he
      obtain ⟨y, hy, hx⟩ := Option.bind_eq_some_iff.1 hx
      obtain ⟨z, hz, -⟩ := Option.bind_eq_some_iff.1 hx
      obtain ⟨b, hb, hc⟩ := bind_ok hc
      obtain ⟨d, hd, hc⟩ := bind_ok hc
      exact genOp_canonical (ihe hce hy hb) (ihf hcf hz hd) hc
  | cast t e ih =>
      obtain ⟨y, hy, -⟩ := Option.bind_eq_some_iff.1 hx
      obtain ⟨b, hb, hc⟩ := bind_ok hc
      exact genCast_canonical (ih he hy hb) hc

theorem gen_const {e : Expr} {env : Env} (he : e.isConst = true)
    (hx : eval ty env e = some x) :
    gen ty true e = .ok ⟨typeOf e, .const (BitVec.ofInt 64 x)⟩ := by
  obtain ⟨a, ha, hat, hholds⟩ := gen_holds ty true hx
  have hv := (gen_canonical he hx ha).eq hholds
  rw [ha, ← hat, ← hv]

/-- The word is the sign extension of its lower half, or the zero extension. -/
theorem exceeds_iff (l : DWord) :
    ((low l).signExtend 64 ≠ l ∧ (low l).setWidth 64 ≠ l) ↔
      ¬ (InRange false 32 l.toInt ∨ InRange true 32 l.toInt) := by
  have hlow : low l = BitVec.ofInt 32 l.toInt := by
    rw [← ofInt_setWidth (show 32 ≤ 64 by decide), BitVec.ofInt_toInt]
    rfl
  have hself : BitVec.ofInt 64 l.toInt = l := BitVec.ofInt_toInt
  rw [not_or, ne_eq, ne_eq]
  refine and_congr (not_congr ⟨fun h => ?_, fun h => ?_⟩)
    (not_congr ⟨fun h => ?_, fun h => ?_⟩)
  · rw [← h, BitVec.toInt_signExtend_of_le (by decide)]
    exact ⟨BitVec.le_toInt _, BitVec.toInt_lt⟩
  · rw [hlow, ofInt_signExtend (by decide) (by decide) h, hself]
  · have hlt := (low l).isLt
    rw [← h, BitVec.toInt_setWidth, Int.bmod_eq_of_le (by omega) (by omega)]
    exact ⟨by omega, by omega⟩
  · rw [hlow, ofInt_zeroExtend (by decide) h, hself]

/-- **A constant expression is computed by the compiler.**  As an `int` it is
refused exactly if its 64-bit word, read with a sign, fits 32 bits neither with
nor without one; so a word from `2 ^ 63` on is taken for a negative number. -/
theorem exprConst_exact {e : Expr} {env : Env} (he : e.isConst = true)
    (hx : eval ty env e = some x) :
    exprConst64 ty e = .ok (BitVec.ofInt 64 x) ∧
      exprConst ty e =
        if InRange false 32 (wrap false 64 x) ∨ InRange true 32 (wrap false 64 x) then
          .ok (BitVec.ofInt 32 x)
        else .error "constant exceeds 32 bit" := by
  have h64 : exprConst64 ty e = .ok (BitVec.ofInt 64 x) := by
    rw [exprConst64, gen_const he hx]
    rfl
  refine ⟨h64, ?_⟩
  have hexceeds := exceeds_iff (BitVec.ofInt 64 x)
  have hint : (BitVec.ofInt 64 x).toInt = wrap false 64 x := BitVec.toInt_ofInt x
  have hlow : low (BitVec.ofInt 64 x) = BitVec.ofInt 32 x :=
    ofInt_setWidth (show 32 ≤ 64 by decide) x
  rw [hint] at hexceeds
  rw [exprConst, h64]
  show (if _ ∧ _ then _ else _) = _
  by_cases h : InRange false 32 (wrap false 64 x) ∨ InRange true 32 (wrap false 64 x)
  · rw [if_pos h, if_neg (fun hout => hexceeds.1 hout h), hlow]
  · rw [if_neg h, if_pos (hexceeds.2 h)]

end Constants

/-- `1ULL << 31 | ~0U`, that is an `int` only without a sign. -/
def sampleConst : Expr :=
  .bin .or (.bin .shl (.lit (.llong true) 1) (.lit (.int false) 31))
    (.com (.lit (.int true) 0))

/-- It is taken.  The largest word is taken as well, for `-1`. -/
theorem sampleConst_computed :
    (exprConst64 words sampleConst = .ok (BitVec.ofInt 64 4294967295) ∧
      exprConst words sampleConst = .ok (BitVec.ofInt 32 4294967295)) ∧
    exprConst words (.lit (.llong true) 18446744073709551615) =
      .ok (BitVec.ofInt 32 (-1)) := by
  have hexact := exprConst_exact (e := sampleConst) rfl
    (show eval words sampleEnv _ = _ from rfl)
  have hlargest := (exprConst_exact
    (e := .lit (.llong true) 18446744073709551615) rfl
    (show eval words sampleEnv _ = _ from rfl)).2
  rw [if_pos (by decide)] at hexact hlargest
  exact ⟨hexact, hlargest⟩

end Bucktoot.Ports.GenOp
