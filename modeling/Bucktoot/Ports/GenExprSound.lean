import Bucktoot.Ports.GenExpr

/-!
# Expressions keep their meaning

* `gen_sourced` — an address of a symbol is left only where the expression has
  one;
* `gen_correct` — what the compiler makes of an expression stands for its value.
-/

namespace Bucktoot.Ports.GenOp

open Bucktoot.Verified
open Bucktoot.Verified.Words
open Bucktoot.Ports.Libtcc1

/-! ## Addresses of symbols -/

theorem sym_address : Address fun v => isSym v = true where
  const _ h := by cases h
  opi _ _ _ h := by cases h
  opl _ _ _ h := by cases h
  withAddend a _ h := by
    cases a with
    | sym s j => rfl
    | frame j => cases h
    | const j => exact h
    | var t x => exact h
    | opi op a b => exact h
    | opl op a b => exact h
    | widen u a => exact h

section Sourced

variable {ty : Pointees} {op : Op} {a b c : SValue} {t : CType} {cw p q : Bool}

/-- The entry is the address of a symbol only where `p` allows it. -/
def Sourced (p : Bool) (a : SValue) : Prop := isSym a.v = true → p = true

/-- The operands whose address may be the result. -/
def leaves (op : Op) (p q : Bool) : Bool := !op.isTest && (p || (!op.isShift && q))

theorem castWide_sourced (ha : Sourced p a) (t : CType) : Sourced p (castWide t a) := by
  intro h
  rw [castWide] at h
  split at h
  · exact ha h
  split at h
  · cases h
  split at h
  · cases h
  · exact ha h

theorem genOpic_sourced {t1 t2 : CType} {v : Value} (ha : Sourced p a)
    (hb : Sourced q b) (hv : genOpic cw op t1 t2 a.v b.v = .ok v)
    (hsym : isSym v = true) : leaves op p q = true := by
  obtain ⟨htest, h | ⟨hs, h⟩⟩ := sym_address.genOpic hv hsym
  · rw [leaves, htest, ha h]
    rfl
  · rw [leaves, htest, hs, hb h]
    simp

theorem bind_ok {α β : Type} {x : Except String α} {f : α → Except String β} {r : β}
    (h : x.bind f = .ok r) : ∃ v, x = .ok v ∧ f v = .ok r := by
  cases x with
  | error e => cases h
  | ok v => exact ⟨v, rfl, h⟩

theorem map_ok {α β : Type} {x : Except String α} {f : α → β} {r : β}
    (h : x.map f = .ok r) : ∃ v, x = .ok v ∧ f v = r := by
  cases x with
  | error e => cases h
  | ok v => exact ⟨v, rfl, Except.ok.inj h⟩

theorem stdOp_sourced (ha : Sourced p a) (hb : Sourced q b)
    (hc : stdOp cw op t a b = .ok c) : Sourced (leaves op p q) c := by
  have hop : leaves (if t.unsigned then unsignedOp op else op) p q = leaves op p q := by
    split
    · cases op <;> rfl
    · rfl
  intro hsym
  obtain ⟨v, hv, rfl⟩ := map_ok hc
  rw [← hop]
  exact genOpic_sourced (castWide_sourced ha _) (castWide_sourced hb _) hv hsym

theorem genOpPtr_sourced {k : Nat} (ha : Sourced p a)
    (hb : Sourced q b) (hc : genOpPtr ty cw op k a b = .ok c) :
    Sourced (leaves op p q) c := by
  intro hsym
  unfold genOpPtr at hc
  simp only at hc
  split at hc
  · cases hc
  obtain ⟨m, hm, hc⟩ := bind_ok hc
  obtain ⟨v, hv, hc⟩ := bind_ok hc
  cases hc
  have hindex : Sourced q (if b.t.isLLong then castWide (.int false) b else b) := by
    split
    · exact castWide_sourced hb _
    · exact hb
  have hmul : Sourced q m := by
    intro h
    have hleaf := stdOp_sourced hindex (q := false) (fun h => by cases h) hm h
    simpa [leaves, Op.isTest, Op.isShift] using hleaf
  exact genOpic_sourced ha hmul hv hsym

theorem genOp_sourced (ha : Sourced p a) (hb : Sourced q b)
    (hc : genOp ty cw op a b = .ok c) : Sourced (leaves op p q) c := by
  unfold genOp at hc
  split at hc
  case isFalse => exact stdOp_sourced ha hb hc
  split at hc
  · obtain ⟨-, -, hc⟩ := bind_ok hc
    exact stdOp_sourced ha hb hc
  have hcomm (hop : op = .add ∨ op = .sub) : leaves op q p = leaves op p q := by
    rcases hop with rfl | rfl
    · exact congrArg _ (Bool.or_comm q p)
    · exact congrArg _ (Bool.or_comm q p)
  split at hc
  · split at hc
    · cases hc
    · case isFalse hsub =>
        obtain rfl := not_not.1 hsub
        obtain ⟨-, -, hc⟩ := bind_ok hc
        obtain ⟨v, hv, hc⟩ := bind_ok hc
        have hv : Sourced (leaves .sub p q) ⟨.int false, v⟩ := genOpic_sourced ha hb hv
        intro h
        have hleaf := stdOp_sourced hv (q := false) (fun h => by cases h) hc h
        simpa [leaves, Op.isTest, Op.isShift] using hleaf
  · split at hc
    · cases hc
    · exact genOpPtr_sourced ha hb hc
  · split at hc
    · cases hc
    · case isFalse hguard =>
        have hop : op = .add ∨ op = .sub := by tauto
        rw [← hcomm hop]
        exact genOpPtr_sourced hb ha hc
  · exact stdOp_sourced ha hb hc

theorem genOpInt_left {i : Word} (ha : Sourced p a)
    (hc : genOpInt cw op a (vpushi i) = .ok c) : Sourced p c := by
  intro h
  have hleaf := stdOp_sourced ha (q := false) (fun h => by cases h) hc h
  simp only [leaves, Bool.and_false, Bool.or_false, Bool.and_eq_true] at hleaf
  exact hleaf.2

theorem forceCharshort_sourced (ha : Sourced p a)
    (hc : forceCharshortCast cw t a = .ok c) : Sourced p c := by
  have hbits (i j : Word) (hc : (if t.unsigned then genOpInt cw .and a (vpushi i) else
      (genOpInt cw .shl a (vpushi j)).bind fun b =>
        genOpInt cw .sar ⟨if b.t.isLLong then .llong false else .int false, b.v⟩
          (vpushi j)) = .ok c) : Sourced p c := by
    split at hc
    · exact genOpInt_left ha hc
    · obtain ⟨b, hb, hc⟩ := bind_ok hc
      have hb : Sourced p b := genOpInt_left ha hb
      have hs (t : CType) : Sourced p ⟨t, b.v⟩ := hb
      exact genOpInt_left (hs _) hc
  exact hbits _ _ hc

theorem genCast_sourced (ha : Sourced p a) (hc : genCast ty cw t a = .ok c) :
    Sourced p c := by
  have hwide (hc : (.ok (castWide t a) : Except String SValue) = .ok c) :
      Sourced p c := by
    cases hc
    exact castWide_sourced ha t
  have hbool (hc : (genOp ty cw .ne a (vpushi 0)).map (fun b => ⟨t, b.v⟩) = .ok c) :
      Sourced p c := by
    obtain ⟨b, hb, rfl⟩ := map_ok hc
    intro h
    cases genOp_sourced ha (q := false) (fun h => by cases h) hb h
  have hsmall (hc : (forceCharshortCast cw t
      (if a.t.isPtr then ⟨.int false, a.v⟩ else a)).map (fun b => ⟨t, b.v⟩) = .ok c) :
      Sourced p c := by
    obtain ⟨b, hb, rfl⟩ := map_ok hc
    have ha : Sourced p (if a.t.isPtr then ⟨.int false, a.v⟩ else a) := by
      split
      · exact ha
      · exact ha
    have hb : Sourced p b := forceCharshort_sourced ha hb
    exact hb
  obtain ⟨s, v⟩ := a
  unfold genCast at hc
  split at hc
  · cases hc
    exact ha
  cases v with
  | const i =>
      cases hc
      exact fun h => by cases h
  | sym k i =>
      cases t with
      | bool =>
          cases hc
          exact fun h => by cases h
      | byte u => exact hsmall hc
      | short u => exact hsmall hc
      | int u => exact hwide hc
      | llong u => exact hwide hc
      | ptr p => exact hwide hc
  | frame i | var q y | opi op a b | opl op a b | widen u a =>
      cases t with
      | bool => exact hbool hc
      | byte u => exact hsmall hc
      | short u => exact hsmall hc
      | int u => exact hwide hc
      | llong u => exact hwide hc
      | ptr p => exact hwide hc

end Sourced

/-! ## Whole expressions -/

section Expressions

variable {env : Env} {e : Expr} {a : SValue} {x : Int} (ty : Pointees) (cw : Bool)

theorem gen_sourced {ty cw} (h : gen ty cw e = .ok a) : Sourced e.address a := by
  have hleft {op : Op} {p : Bool} {i : Word} {b c : SValue} (hb : Sourced p b)
      (hc : genOp ty cw op b (vpushi i) = .ok c) : Sourced p c := by
    intro h
    have hleaf := genOp_sourced hb (q := false) (fun h => by cases h) hc h
    simp only [leaves, Bool.and_false, Bool.or_false, Bool.and_eq_true] at hleaf
    exact hleaf.2
  induction e generalizing a with
  | lit t i =>
      cases h
      exact fun h => by cases h
  | var t x =>
      cases h
      exact fun h => by cases h
  | sym p s => exact fun _ => rfl
  | frame p i =>
      cases h
      exact fun h => by cases h
  | neg e ih =>
      obtain ⟨b, hb, h⟩ := bind_ok h
      intro hsym
      exact genOp_sourced (p := false) (fun h => by cases h) (ih hb) h hsym
  | com e ih =>
      obtain ⟨b, hb, h⟩ := bind_ok h
      exact hleft (ih hb) h
  | pos e ih =>
      obtain ⟨b, hb, h⟩ := bind_ok h
      split at h
      · cases h
      · exact hleft (ih hb) h
  | bin op e f ihe ihf =>
      obtain ⟨b, hb, h⟩ := bind_ok h
      obtain ⟨d, hd, h⟩ := bind_ok h
      exact genOp_sourced (ihe hb) (ihf hd) h
  | cast t e ih =>
      obtain ⟨b, hb, h⟩ := bind_ok h
      exact genCast_sourced (ih hb) h

theorem usual_int {t : CType} (ht : t.isPtr = false) :
    usual (.int false) t = promote t ∧ usual t (.int false) = promote t ∧
      (promote t).isWide = true := by
  cases t with
  | ptr p => cases ht
  | bool | byte u | short u => exact ⟨rfl, rfl, rfl⟩
  | int u => cases u <;> exact ⟨rfl, rfl, rfl⟩
  | llong u => cases u <;> exact ⟨rfl, rfl, rfl⟩

/-- `-`, `~` and `+` are operations with a constant. -/
theorem arith_unary {t : CType} (ht : t.isPtr = false) (x : Int) :
    arith .sub (.int false) t 0 x = some (convert (promote t) (-x)) ∧
      arith .xor t (.int false) x (-1) = some (convert (promote t) (-x - 1)) ∧
      arith .add t (.int false) x 0 = some (convert (promote t) x) := by
  obtain ⟨hl, hr, hw⟩ := usual_int ht
  have hword (k : Int) := ofInt_convert hw k
  refine ⟨?_, ?_, ?_⟩
  · show some (convert (usual (.int false) t) (convert (usual (.int false) t) 0 -
      convert (usual (.int false) t) x)) = _
    rw [hl]
    refine congrArg some (convert_congr hw ?_)
    rw [ofInt_sub, hword, hword, ← ofInt_sub, Int.zero_sub]
  · show some (convert (usual t (.int false)) (bitwise _
      (convert (usual t (.int false)) x) (convert (usual t (.int false)) (-1)))) = _
    rw [hr]
    refine congrArg some (convert_congr hw ?_)
    have hxor := ofInt_bitwise (f := fun a b => a ^^^ b) (g := fun a b => a ^^^ b)
      (x := convert (promote t) x) (y := convert (promote t) (-1)) (width_le (promote t)).2
      fun _ _ => BitVec.setWidth_xor
    have hminus : BitVec.ofInt (promote t).width (-1) = BitVec.allOnes _ := by
      rw [BitVec.ofInt_neg, ← BitVec.neg_one_eq_allOnes]
      rfl
    have hone : BitVec.ofInt (promote t).width 1 = 1#_ := rfl
    rw [← hxor, hword, hword, hminus, ofInt_sub, BitVec.ofInt_neg, BitVec.xor_allOnes,
      BitVec.neg_eq_not_add, hone, BitVec.add_sub_cancel]
  · show some (convert (usual t (.int false)) (convert (usual t (.int false)) x +
      convert (usual t (.int false)) 0)) = _
    rw [hr]
    refine congrArg some (convert_congr hw ?_)
    rw [BitVec.ofInt_add, hword, hword, ← BitVec.ofInt_add, Int.add_zero]

/-- A unary operator, with a constant on the right. -/
theorem gen_unary {op : Op} {i : Word} {k z : Int} (hop : op.inSource = true)
    (hshift : op.isShift = false) (htest : op.isTest = false) (hp : a.t.isPtr = false)
    (ha : Holds env a x) (hi : Holds env (vpushi i) k)
    (hz : arith op a.t (.int false) x k = some z) :
    ∃ c, genOp ty cw op a (vpushi i) = .ok c ∧ c.t = promote a.t ∧ Holds env c z := by
  obtain ⟨c, hc, hct, hholds⟩ := genOp_holds cw hop ha hi
    ((evalOp_arith ty hp rfl).trans hz)
  refine ⟨c, hc, ?_, hholds⟩
  rw [hct, typeOp_arith hp rfl, resultType, htest, if_neg Bool.false_ne_true, commonType,
    hshift, if_neg Bool.false_ne_true]
  exact (usual_int hp).2.1

theorem toInt_holds {p : Nat} {v : Value} {l : Word}
    (hl : v.word env = some (l.setWidth 64)) : Holds env ⟨.ptr p, v⟩ l.toInt := by
  refine ⟨inRange_signed.2 ⟨BitVec.le_toInt l, BitVec.toInt_lt⟩, ⟨_, hl, ?_⟩,
    fun _ => rfl⟩
  show (l.setWidth 64).setWidth 32 = BitVec.ofInt 32 l.toInt
  rw [BitVec.setWidth_setWidth_of_le _ (by decide), BitVec.setWidth_eq,
    BitVec.ofInt_toInt]

/-- What is left for an expression stands for its value, by induction on the
expression. -/
theorem gen_holds (hx : eval ty env e = some x) :
    ∃ a, gen ty cw e = .ok a ∧ a.t = typeOf e ∧ Holds env a x := by
  have hpush {i : Word} {k : Int} (hi : i = BitVec.ofInt 32 k) (h0 : -2 ^ 31 ≤ k)
      (h1 : k < 2 ^ 31) : Holds env (vpushi i) k :=
    vpushi_holds hi (inRange_signed.2 ⟨h0, h1⟩)
  induction e generalizing x with
  | lit t i =>
      rw [eval] at hx
      split at hx
      · case isTrue h =>
          cases hx
          exact ⟨_, rfl, rfl, holds_const (h.2 ▸ convert_fits t i) rfl⟩
      · cases hx
  | var t y =>
      cases hx
      refine ⟨_, rfl, rfl, convert_fits _ _, ⟨_, rfl, ?_⟩, fun h => by cases h⟩
      exact ofInt_setWidth (width_le t).2 _
  | sym p s =>
      cases hx
      refine ⟨_, rfl, rfl, toInt_holds ?_⟩
      have hbase : env.sym s + low 0 = env.sym s := BitVec.add_zero _
      rw [Value.word, hbase]
  | frame p i =>
      cases hx
      refine ⟨_, rfl, rfl, toInt_holds ?_⟩
      have hlow : low (i.signExtend 64) = i :=
        setWidth_signExtend (show 32 ≤ 64 by decide) i
      rw [Value.word, hlow]
  | neg e ih =>
      obtain ⟨y, hy, hx⟩ := Option.bind_eq_some_iff.1 hx
      split at hx
      · cases hx
      case isFalse hp =>
      rw [Bool.not_eq_true] at hp
      cases hx
      obtain ⟨a, ha, hat, hholds⟩ := ih hy
      rw [← hat] at hp
      have hz := (evalOp_arith ty rfl hp).trans (arith_unary hp y).1
      obtain ⟨c, hc, hct, hc'⟩ := genOp_holds cw (a := vpushi 0) rfl
        (hpush (k := 0) rfl (by decide) (by decide)) hholds hz
      refine ⟨c, ?_, ?_, hat ▸ hc'⟩
      · rw [gen, ha]
        exact hc
      · rw [hct, typeOp_arith rfl hp, typeOf, ← hat]
        exact (usual_int hp).1
  | com e ih =>
      obtain ⟨y, hy, hx⟩ := Option.bind_eq_some_iff.1 hx
      split at hx
      · cases hx
      case isFalse hp =>
      rw [Bool.not_eq_true] at hp
      cases hx
      obtain ⟨a, ha, hat, hholds⟩ := ih hy
      rw [← hat] at hp
      obtain ⟨c, hc, hct, hc'⟩ := gen_unary ty cw rfl rfl rfl hp hholds
        (hpush (i := -1) (k := -1) rfl (by decide) (by decide)) (arith_unary hp y).2.1
      refine ⟨c, ?_, by rw [hct, hat, typeOf], hat ▸ hc'⟩
      rw [gen, ha]
      exact hc
  | pos e ih =>
      obtain ⟨y, hy, hx⟩ := Option.bind_eq_some_iff.1 hx
      split at hx
      · cases hx
      case isFalse hp =>
      rw [Bool.not_eq_true] at hp
      cases hx
      obtain ⟨a, ha, hat, hholds⟩ := ih hy
      rw [← hat] at hp
      obtain ⟨c, hc, hct, hc'⟩ := gen_unary ty cw rfl rfl rfl hp hholds
        (hpush (i := 0) (k := 0) rfl (by decide) (by decide)) (arith_unary hp y).2.2
      refine ⟨c, ?_, by rw [hct, hat, typeOf], hat ▸ hc'⟩
      rw [gen, ha]
      show (if a.t.isPtr then _ else genOp ty cw .add a (vpushi 0)) = _
      rw [hp]
      exact hc
  | bin op e f ihe ihf =>
      obtain ⟨y, hy, hx⟩ := Option.bind_eq_some_iff.1 hx
      obtain ⟨z, hz, hx⟩ := Option.bind_eq_some_iff.1 hx
      split at hx
      case isFalse => cases hx
      case isTrue hop =>
      obtain ⟨a, ha, hat, hholds⟩ := ihe hy
      obtain ⟨b, hb, hbt, hholds'⟩ := ihf hz
      rw [← hat, ← hbt] at hx
      obtain ⟨c, hc, hct, hc'⟩ := genOp_holds cw hop hholds hholds' hx
      refine ⟨c, ?_, by rw [hct, hat, hbt, typeOf], hc'⟩
      rw [gen, ha, hb]
      exact hc
  | cast t e ih =>
      obtain ⟨y, hy, hx⟩ := Option.bind_eq_some_iff.1 hx
      split at hx
      · cases hx
      case isFalse hzero =>
      cases hx
      obtain ⟨a, ha, hat, hholds⟩ := ih hy
      have hsym : t = .bool → isSym a.v = true → y ≠ 0 := fun ht hs h0 =>
        hzero ⟨ht, gen_sourced ha hs, h0⟩
      obtain ⟨c, hc, hct, hc'⟩ := genCast_holds cw ty t hholds hsym
      refine ⟨c, ?_, hct, hc'⟩
      rw [gen, ha]
      exact hc

/-- **The compiler keeps the meaning of an expression**, also where it computes
it. -/
theorem gen_correct (hx : eval ty env e = some x) :
    ∃ a, gen ty cw e = .ok a ∧ a.t = typeOf e ∧ Holds env a x :=
  gen_holds ty cw hx

end Expressions

theorem four_inRange (_ : Nat) : InRange false 32 4 := by decide

/-- What is pointed to are words. -/
def words : Pointees := ⟨fun _ => 4, fun p q => p = q, four_inRange⟩

/-- A program with a variable that is negative. -/
def sampleEnv : Env := ⟨fun _ => -5, fun s => BitVec.ofNat 32 (0x400000 + 16 * s), 0⟩

/-- `(short)(x * 8 - (1 << 4)) / 3` -/
def sampleExpr : Expr :=
  .bin .div
    (.cast (.short false)
      (.bin .sub (.bin .mul (.var (.int false) 0) (.lit (.int false) 8))
        (.bin .shl (.lit (.int false) 1) (.lit (.int false) 4))))
    (.lit (.int false) 3)

/-- The product is a shift by then, the constant is folded, and the cast is two
shifts. -/
theorem sampleExpr_compiled :
    ∃ a, gen words false sampleExpr = .ok a ∧ a.t = typeOf sampleExpr ∧
      Holds sampleEnv a (-18) :=
  gen_correct words false rfl

end Bucktoot.Ports.GenOp
