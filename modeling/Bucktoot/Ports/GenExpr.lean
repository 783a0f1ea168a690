import Bucktoot.Ports.GenOpCast

/-!
# Arithmetic expressions

What C says of an expression on integers and pointers, and what the parser makes
of it on the value stack.

* `Expr`, `typeOf`, `eval` — the expressions of the language;
* `gen` — the calls of `gen_op` and `gen_cast` that `unary` and `expr_…` make;
* `genOp_holds` — one operation, with pointers.
-/

namespace Bucktoot.Ports.GenOp

open Bucktoot.Verified
open Bucktoot.Verified.Words
open Bucktoot.Ports.Libtcc1

/-! ## The language -/

/-- Literals, variables, addresses, the unary operators `-`, `~` and `+`, binary
operators and casts. -/
inductive Expr where
  | lit (t : CType) (i : Int)
  | var (t : CType) (x : Nat)
  | sym (p : Nat) (s : Nat)
  | frame (p : Nat) (i : Word)
  | neg (a : Expr)
  | com (a : Expr)
  | pos (a : Expr)
  | bin (op : Op) (a b : Expr)
  | cast (t : CType) (a : Expr)
  deriving DecidableEq, Repr

/-- The operators that a program is written with. -/
def Op.inSource : Op → Bool
  | .add | .sub | .and | .xor | .or | .mul | .div | .mod | .shl | .sar
  | .eq | .ne | .lt | .ge | .le | .gt => true
  | _ => false

/-- The integer promotions. -/
def promote : CType → CType
  | .bool | .byte _ | .short _ => .int false
  | t => t

/-- The usual arithmetic conversions. -/
def usual (s t : CType) : CType :=
  match promote s, promote t with
  | .llong u, .llong v => .llong (u || v)
  | .llong u, _ => .llong u
  | _, .llong v => .llong v
  | .int u, .int v => .int (u || v)
  | s, _ => s

/-- The type that an operation on integers is done in. -/
def commonType (op : Op) (s t : CType) : CType :=
  if op.isShift then promote s else usual s t

def typeOp (op : Op) (s t : CType) : CType :=
  if op.isTest then .int false
  else
    match s, t with
    | .ptr _, .ptr _ => .int false
    | .ptr p, _ | _, .ptr p => .ptr p
    | s, t => commonType op s t

def typeOf : Expr → CType
  | .lit t _ | .var t _ => t
  | .sym p _ | .frame p _ => .ptr p
  | .neg a | .com a | .pos a => promote (typeOf a)
  | .bin op a b => typeOp op (typeOf a) (typeOf b)
  | .cast t _ => t

/-- An operation on integers.  Signed operations wrap around. -/
def arith (op : Op) (s t : CType) (x y : Int) : Option Int :=
  let c := commonType op s t
  (intOp c.width op (convert c x) (if op.isShift then y else convert c y)).map
    (convert (resultType op c))

/-- Addresses are compared without a sign. -/
def testPtr (op : Op) (x y : Int) : Int :=
  if testInt op (convert (.int true) x) (convert (.int true) y) then 1 else 0

/-- The elements between two addresses. -/
def difference (size x y : Int) : Option Int :=
  let d := convert (.int false) (x - y)
  if 0 < size ∧ size ∣ d then some (d / size) else none

/-- The address some elements on, or back. -/
def offset (ty : Pointees) (op : Op) (p : Nat) (x y : Int) : Option Int :=
  if 0 ≤ ty.size p then
    match op with
    | .add => some (convert (.ptr p) (x + y * ty.size p))
    | .sub => some (convert (.ptr p) (x - y * ty.size p))
    | _ => none
  else none

/-- The value of an operation. -/
def evalOp (ty : Pointees) (op : Op) (s t : CType) (x y : Int) : Option Int :=
  match s, t with
  | .ptr p, .ptr q =>
      if op.isTest then some (testPtr op x y)
      else if op = .sub ∧ ty.compatible p q then difference (ty.size p) x y
      else none
  | .ptr p, t =>
      if op.isTest then if t = .bool then none else some (testPtr op x y)
      else offset ty op p x y
  | s, .ptr p =>
      if op.isTest then if s = .bool then none else some (testPtr op x y)
      else if op = .add then offset ty op p y x
      else none
  | s, t => arith op s t x y

/-- The value depends on the address of a symbol, other than by a comparison. -/
def Expr.address : Expr → Bool
  | .sym _ _ => true
  | .lit _ _ | .var _ _ | .frame _ _ => false
  | .neg a | .com a | .pos a | .cast _ a => a.address
  | .bin op a b => !op.isTest && (a.address || (!op.isShift && b.address))

/-- The value of an expression, where it has one.  The compiler takes the address
of a symbol for nonzero: there is no meaning for a conversion to `_Bool` where it
is not. -/
def eval (ty : Pointees) (env : Env) : Expr → Option Int
  | .lit t i => if t.isInt ∧ convert t i = i then some i else none
  | .var t x => some (convert t (env.var x))
  | .sym _ s => some (env.sym s).toInt
  | .frame _ i => some (env.frame + i).toInt
  | .neg a => do
      let x ← eval ty env a
      if (typeOf a).isPtr then none else some (convert (promote (typeOf a)) (-x))
  | .com a => do
      let x ← eval ty env a
      if (typeOf a).isPtr then none else some (convert (promote (typeOf a)) (-x - 1))
  | .pos a => do
      let x ← eval ty env a
      if (typeOf a).isPtr then none else some (convert (promote (typeOf a)) x)
  | .bin op a b => do
      let x ← eval ty env a
      let y ← eval ty env b
      if op.inSource then evalOp ty op (typeOf a) (typeOf b) x y else none
  | .cast t a => do
      let x ← eval ty env a
      if t = .bool ∧ a.address ∧ x = 0 then none else some (convert t x)

/-! ## The parser -/

/-- `unary`, `expr_prod` to `expr_or`. -/
def gen (ty : Pointees) (constWanted : Bool) : Expr → Except String SValue
  | .lit t i => .ok ⟨t, .const (BitVec.ofInt 64 i)⟩
  | .var t x => .ok ⟨t, .var t x⟩
  | .sym p s => .ok ⟨.ptr p, .sym s 0⟩
  | .frame p i => .ok ⟨.ptr p, .frame (i.signExtend 64)⟩
  | .neg a => do
      let a ← gen ty constWanted a
      genOp ty constWanted .sub (vpushi 0) a
  | .com a => do
      let a ← gen ty constWanted a
      genOp ty constWanted .xor a (vpushi (-1))
  | .pos a => do
      let a ← gen ty constWanted a
      if a.t.isPtr then .error "pointer not accepted for unary plus"
      else genOp ty constWanted .add a (vpushi 0)
  | .bin op a b => do
      let a ← gen ty constWanted a
      let b ← gen ty constWanted b
      genOp ty constWanted op a b
  | .cast t a => do
      let a ← gen ty constWanted a
      genCast ty constWanted t a

/-! ## One operation -/

section Operation

variable {ty : Pointees} {env : Env} {op : Op} {a b : SValue} {s t : CType}
  {x y z : Int} (cw : Bool)

theorem opType_eq (op : Op) (hs : s.isPtr = false) (ht : t.isPtr = false) :
    opType op s t = commonType op s t := by
  rw [opType, commonType, usual]
  cases op.isShift with
  | true =>
      cases s with
      | ptr p => cases hs
      | bool | byte u | short u => rfl
      | int u => cases u <;> rfl
      | llong u => cases u <;> rfl
  | false =>
      cases s with
      | ptr p => cases hs
      | bool | byte u | short u =>
          cases t with
          | ptr p => cases ht
          | bool | byte v | short v => rfl
          | int v => cases v <;> rfl
          | llong v => cases v <;> rfl
      | int u | llong u =>
          cases t with
          | ptr p => cases ht
          | bool | byte v | short v => cases u <;> rfl
          | int v => cases u <;> cases v <;> rfl
          | llong v => cases u <;> cases v <;> rfl

theorem inSource_cases (h : op.inSource = true) :
    op.reads ≠ some true ∧ op ≠ .pdiv := by
  cases op
  case pdiv | udiv | umod | shr | ult | uge | ule | ugt | land | lor => cases h
  all_goals exact ⟨by decide, by decide⟩

/-- An operation on integers. -/
theorem genOp_arith (hop : op.inSource = true) (hs : a.t.isPtr = false)
    (ht : b.t.isPtr = false) (ha : Holds env a x) (hb : Holds env b y)
    (hz : arith op a.t b.t x y = some z) :
    ∃ c, genOp ty cw op a b = .ok c ∧
      c.t = resultType op (commonType op a.t b.t) ∧ Holds env c z := by
  obtain ⟨hreads, hpdiv⟩ := inSource_cases hop
  obtain ⟨z', hz', rfl⟩ := Option.map_eq_some_iff.1 hz
  obtain ⟨c, hc, hct, hholds⟩ := genOpInt_holds cw (opType_eq op hs ht) hreads
    (fun h => absurd h hpdiv) ha hb rfl hz'
  refine ⟨c, ?_, hct, hct ▸ hholds⟩
  rw [genOp_int cw ty op (by rw [hs, ht]; rfl)]
  exact hc

theorem evalOp_arith (ty : Pointees) (hs : s.isPtr = false) (ht : t.isPtr = false) :
    evalOp ty op s t x y = arith op s t x y := by
  cases s with
  | ptr p => cases hs
  | bool | byte u | short u | int u | llong u =>
      cases t with
      | ptr p => cases ht
      | bool | byte u | short u | int u | llong u => rfl

/-- A comparison with a pointer. -/
theorem genOp_testPtr (hop : op.inSource = true) (htest : op.isTest = true)
    (hptr : (a.t.isPtr || b.t.isPtr) = true) (hs : a.t ≠ .bool) (ht : b.t ≠ .bool)
    (ha : Holds env a x) (hb : Holds env b y) :
    ∃ c, genOp ty cw op a b = .ok c ∧ c.t = .int false ∧
      Holds env c (testPtr op x y) := by
  obtain ⟨hreads, hpdiv⟩ := inSource_cases hop
  have hsub : op ≠ .sub := by
    rintro rfl
    cases htest
  have hcheck : checkComparison ty op a b = .ok () := by
    unfold checkComparison
    split
    · rfl
    split
    · rw [if_neg (fun h => hsub h.1)]
    · case _ hb => exact absurd hb ht
    · case _ ha hb => exact absurd ha hs
    · case _ ha hb => exact absurd ha hs
    · rfl
  have hshift : op.isShift = false := by
    cases op
    case shl | shr | sar => cases htest
    all_goals rfl
  have hz : intOp 32 op (convert (.int true) x) (convert (.int true) y) =
      some (testPtr op x y) := by
    cases op
    case lt | gt | le | ge | eq | ne => rfl
    all_goals first | cases hop; done | cases htest
  obtain ⟨c, hc, hct, hholds⟩ := stdOp_holds (t := .int true) cw rfl hreads
    (fun h => absurd h hpdiv) ha hb (by rw [hshift, if_neg Bool.false_ne_true]) hz
  have hint : c.t = .int false := by
    rw [hct, resultType, htest, if_pos rfl]
  have hfits : Fits (.int false) (testPtr op x y) := by
    rw [testPtr]
    split <;> exact inRange_signed.2 ⟨by decide, by decide⟩
  refine ⟨c, ?_, hint, ?_⟩
  · rw [genOp_test cw ty hptr htest, hcheck]
    exact hc
  · rw [hint, convert_of_fits hfits] at hholds
    exact hholds

/-- What `gen_opic` does with an address. -/
theorem genOpic_address (hop : op = .add ∨ op = .sub) (ha : Holds env a x)
    (hb : Holds env b y) (hs : a.t.isLLong = false) (ht : b.t.isLLong = false) :
    ∃ v, genOpic cw op a.t b.t a.v b.v = .ok v ∧
      Stands env 32 v (if op = .add then x + y else x - y) := by
  have hw : a.t.width = 32 := by rw [CType.width, hs, if_neg Bool.false_ne_true]
  have hready : Ready env op a.t b.t a.v b.v x y := by
    refine ⟨?_, ?_, inRange_of_fits ha.fits, inRange_of_fits hb.fits, ?_, ha.stands,
      hb.stands, ha.narrow, hb.narrow⟩
    · rw [hs, ht, Bool.and_false]
    · rcases hop with rfl | rfl <;> exact fun h => by cases h
    · rcases hop with rfl | rfl <;> exact fun h => by cases h
  have hz : intOp a.t.width op x y = some (if op = .add then x + y else x - y) := by
    rcases hop with rfl | rfl <;> rfl
  obtain ⟨v, hv, hstands⟩ := genOpic_stands cw hready hz
  rw [hw] at hstands
  exact ⟨v, hv, hstands⟩

/-- The size of what is pointed to. -/
theorem size_holds (ty : Pointees) (p : Nat) :
    Holds env (vpushi (BitVec.ofInt 32 (ty.size p))) (ty.size p) :=
  vpushi_holds rfl (ty.size_fits p)

/-- The difference of two pointers. -/
theorem genOp_difference {p q : Nat} (hat : a.t = .ptr p) (hbt : b.t = .ptr q)
    (hcompat : ty.compatible p q = true) (ha : Holds env a x) (hb : Holds env b y)
    (hz : difference (ty.size p) x y = some z) :
    ∃ c, genOp ty cw .sub a b = .ok c ∧ c.t = .int false ∧ Holds env c z := by
  have hcheck : checkComparison ty .sub a b = .ok () := by
    unfold checkComparison
    rw [hat, hbt]
    split
    · rfl
    · simp [hcompat]
  rw [difference] at hz
  split at hz
  case isFalse => cases hz
  case isTrue hsize =>
  cases hz
  obtain ⟨v, hv, hstands⟩ := genOpic_address cw (.inr rfl) ha hb (by rw [hat]; rfl)
    (by rw [hbt]; rfl)
  rw [if_neg (by decide)] at hstands
  let d := convert (.int false) (x - y)
  have hd : Holds env ⟨.int false, v⟩ d :=
    ⟨convert_fits _ _, stands_congr (ofInt_convert (t := .int false) rfl _).symm hstands,
      fun _ => rfl⟩
  have hfd : convert (.int false) d = d := convert_of_fits (convert_fits _ _)
  have hfs : convert (.int false) (ty.size p) = ty.size p :=
    convert_of_fits (t := .int false) (ty.size_fits p)
  have hdiv : intOp 32 .pdiv (convert (.int false) d) (ty.size p) =
      some (d / ty.size p) := by
    rw [hfd, intOp, if_pos hsize]
  obtain ⟨c, hc, hct, hholds⟩ := genOpInt_holds (t := .int false) cw rfl
    (show Op.pdiv.reads ≠ some true by decide) (fun _ => rfl) hd (size_holds ty p) hfs
    hdiv
  have hint : c.t = .int false := hct
  have hfits : Fits (.int false) (d / ty.size p) :=
    show InRange false 32 (d / ty.size p) from
      ediv_inRange hsize.1 (show InRange false 32 d from convert_fits (.int false) _)
  refine ⟨c, ?_, hint, ?_⟩
  · have hgen : genOp ty cw .sub a b = (checkComparison ty .sub a b).bind fun _ =>
        (genOpic cw .sub a.t b.t a.v b.v).bind fun v =>
          genOpInt cw .pdiv ⟨.int false, v⟩ (vpushi (BitVec.ofInt 32 (ty.size p))) := by
      rw [genOp, hat, hbt]
      rfl
    rw [hgen, hcheck, hv]
    exact hc
  · rw [hint, convert_of_fits hfits] at hholds
    exact hholds

/-- The product is an `int` also of a `long long`. -/
theorem genOpPtr_index (hb : Holds env b y) (hbt : b.t.isPtr = false) (size : Int)
    (hsize : InRange false 32 size) :
    ∃ c k, genOpInt cw .mul (if b.t.isLLong then castWide (.int false) b else b)
        (vpushi (BitVec.ofInt 32 size)) = .ok c ∧ c.t.isLLong = false ∧
      Holds env c k ∧ BitVec.ofInt 32 k = BitVec.ofInt 32 (y * size) := by
  obtain ⟨b', hbeq⟩ : ∃ b', (if b.t.isLLong then castWide (.int false) b else b) = b' :=
    ⟨_, rfl⟩
  have hindex : ∃ y', Holds env b' y' ∧ b'.t.isPtr = false ∧ b'.t.isLLong = false ∧
      BitVec.ofInt 32 y' = BitVec.ofInt 32 y := by
    cases hl : b.t.isLLong with
    | true =>
        rw [hl, if_pos rfl] at hbeq
        subst hbeq
        obtain ⟨ht, hcast⟩ := castWide_holds hb (t := .int false) rfl
        exact ⟨_, hcast, by rw [ht]; rfl, by rw [ht]; rfl,
          ofInt_convert (t := .int false) rfl y⟩
    | false =>
        rw [hl, if_neg Bool.false_ne_true] at hbeq
        subst hbeq
        exact ⟨y, hb, hbt, hl, rfl⟩
  obtain ⟨y', hb', hp, hl, hword⟩ := hindex
  obtain ⟨t, htype⟩ : ∃ t, opType .mul b'.t (.int false) = t := ⟨_, rfl⟩
  have ht : t.isWide = true := htype ▸ isWide_of_isInt (opType_isInt _ _ _)
  have htl : t.isLLong = false := by
    subst htype
    show (if b'.t.isLLong || false then CType.llong _ else CType.int _ :
      CType).isLLong = false
    rw [hl]
    rfl
  have hw : t.width = 32 := by rw [CType.width, htl, if_neg Bool.false_ne_true]
  obtain ⟨c, hc, hct, hholds⟩ := genOpInt_holds cw htype
    (show Op.mul.reads ≠ some true by decide) (fun h => by cases h) hb'
    (vpushi_holds rfl hsize) rfl rfl
  have hrt : c.t = t := hct
  refine ⟨c, _, hbeq ▸ hc, by rw [hrt]; exact htl, hholds, ?_⟩
  have hconv (k : Int) : BitVec.ofInt 32 (convert t k) = BitVec.ofInt 32 k := by
    have hword := ofInt_convert ht k
    rwa [hw] at hword
  rw [hrt, hconv, BitVec.ofInt_mul, BitVec.ofInt_mul, hconv, hword]
  congr 1
  exact hconv size

/-- An offset from a pointer. -/
theorem genOpPtr_holds {p : Nat} (hat : a.t = .ptr p) (hbt : b.t.isPtr = false)
    (ha : Holds env a x) (hb : Holds env b y) (hz : offset ty op p x y = some z) :
    (op = .add ∨ op = .sub) ∧
      ∃ c, genOpPtr ty cw op p a b = .ok c ∧ c.t = .ptr p ∧ Holds env c z := by
  unfold offset at hz
  split at hz
  case isFalse => cases hz
  case isTrue hsize =>
  obtain ⟨hop, hword⟩ : (op = .add ∨ op = .sub) ∧ z = convert (.ptr p)
      (if op = .add then x + y * ty.size p else x - y * ty.size p) := by
    split at hz
    · cases hz
      exact ⟨.inl rfl, rfl⟩
    · cases hz
      exact ⟨.inr rfl, rfl⟩
    · cases hz
  subst hword
  refine ⟨hop, ?_⟩
  obtain ⟨m, k, hm, hmt, hmul, hk⟩ := genOpPtr_index cw hb hbt (ty.size p)
    (ty.size_fits p)
  obtain ⟨v, hv, hstands⟩ := genOpic_address cw hop ha hmul (by rw [hat]; rfl) hmt
  refine ⟨⟨.ptr p, v⟩, ?_, rfl, convert_fits _ _, ?_, fun _ => rfl⟩
  · rw [genOpPtr, if_neg (Int.not_lt.2 hsize)]
    show (genOpInt cw .mul _ _).bind (fun b =>
      (genOpic cw op a.t b.t a.v b.v).bind fun v => Except.ok (⟨.ptr p, v⟩ : SValue)) = _
    rw [hm]
    show (genOpic cw op a.t m.t a.v m.v).bind _ = _
    rw [hv]
    rfl
  · refine stands_congr ?_ hstands
    refine Eq.trans ?_ (ofInt_convert (t := .ptr p) rfl _).symm
    show BitVec.ofInt 32 _ = BitVec.ofInt 32 _
    rcases hop with rfl | rfl
    · rw [if_pos rfl, if_pos rfl, BitVec.ofInt_add, BitVec.ofInt_add, hk]
    · rw [if_neg (by decide), if_neg (by decide), ofInt_sub, ofInt_sub, hk]

theorem genOp_left {p : Nat} (hat : a.t = .ptr p) (hbt : b.t.isPtr = false)
    (htest : op.isTest = false) (hop : op = .add ∨ op = .sub) :
    genOp ty cw op a b = genOpPtr ty cw op p a b := by
  unfold genOp
  rw [htest, hat]
  have hguard : ¬ (op ≠ .sub ∧ op ≠ .add) := by tauto
  cases hb : b.t with
  | ptr q =>
      rw [hb] at hbt
      cases hbt
  | bool | byte u | short u | int u | llong u => exact if_neg hguard

theorem genOp_right {p : Nat} (hat : a.t.isPtr = false) (hbt : b.t = .ptr p)
    (htest : op.isTest = false) (hop : op = .add ∨ op = .sub) :
    genOp ty cw op a b = genOpPtr ty cw op p b a := by
  unfold genOp
  rw [htest, hbt]
  have hguard : ¬ (op ≠ .sub ∧ op ≠ .add) := by tauto
  cases ha : a.t with
  | ptr q =>
      rw [ha] at hat
      cases hat
  | bool | byte u | short u | int u | llong u => exact if_neg hguard

theorem isPtr_of_not (h : ∀ p, t = .ptr p → False) : t.isPtr = false := by
  cases t with
  | ptr p => exact (h p rfl).elim
  | bool | byte u | short u | int u | llong u => rfl

theorem typeOp_test (htest : op.isTest = true) : typeOp op s t = .int false :=
  if_pos htest

theorem typeOp_left {p : Nat} (htest : op.isTest = false) (ht : t.isPtr = false) :
    typeOp op (.ptr p) t = .ptr p := by
  unfold typeOp
  rw [htest, if_neg Bool.false_ne_true]
  cases t with
  | ptr q => cases ht
  | bool | byte u | short u | int u | llong u => rfl

theorem typeOp_right {p : Nat} (htest : op.isTest = false) (hs : s.isPtr = false) :
    typeOp op s (.ptr p) = .ptr p := by
  unfold typeOp
  rw [htest, if_neg Bool.false_ne_true]
  cases s with
  | ptr q => cases hs
  | bool | byte u | short u | int u | llong u => rfl

theorem typeOp_arith (hs : s.isPtr = false) (ht : t.isPtr = false) :
    typeOp op s t = resultType op (commonType op s t) := by
  unfold typeOp resultType
  split
  · rfl
  · cases s with
    | ptr q => cases hs
    | bool | byte u | short u | int u | llong u =>
        cases t with
        | ptr q => cases ht
        | bool | byte v | short v | int v | llong v => rfl

/-- **One operation.** -/
theorem genOp_holds (hop : op.inSource = true) (ha : Holds env a x) (hb : Holds env b y)
    (hz : evalOp ty op a.t b.t x y = some z) :
    ∃ c, genOp ty cw op a b = .ok c ∧ c.t = typeOp op a.t b.t ∧ Holds env c z := by
  have htestPtr (htest : op.isTest = true) (hptr : (a.t.isPtr || b.t.isPtr) = true)
      (hs : a.t ≠ .bool) (ht : b.t ≠ .bool) (hz : some (testPtr op x y) = some z) :
      ∃ c, genOp ty cw op a b = .ok c ∧ c.t = typeOp op a.t b.t ∧ Holds env c z := by
    cases hz
    rw [typeOp_test htest]
    exact genOp_testPtr cw hop htest hptr hs ht ha hb
  have hne {t : CType} {p : Nat} (h : t = .ptr p) : t.isPtr = true ∧ t ≠ .bool := by
    subst h
    exact ⟨rfl, by simp⟩
  unfold evalOp at hz
  split at hz
  · case _ p q hat hbt =>
      split at hz
      · case isTrue htest =>
          exact htestPtr htest (by rw [(hne hat).1]; rfl) (hne hat).2 (hne hbt).2 hz
      · split at hz
        · case isTrue hsub =>
            obtain ⟨rfl, hcompat⟩ := hsub
            rw [hat, hbt]
            exact genOp_difference cw hat hbt hcompat ha hb hz
        · cases hz
  · case _ p hat hnot =>
      have hbt := isPtr_of_not hnot
      split at hz
      · case isTrue htest =>
          split at hz
          · cases hz
          · case isFalse hbool =>
              exact htestPtr htest (by rw [(hne hat).1]; rfl) (hne hat).2 hbool hz
      · case isFalse htest =>
          rw [Bool.not_eq_true] at htest
          obtain ⟨hadd, c, hc, hct, hholds⟩ := genOpPtr_holds cw hat hbt ha hb hz
          refine ⟨c, (genOp_left cw hat hbt htest hadd).trans hc, ?_, hholds⟩
          rw [hct, hat, typeOp_left htest hbt]
  · case _ p hbt hnot =>
      have hat := isPtr_of_not fun p h => hnot p h
      split at hz
      · case isTrue htest =>
          split at hz
          · cases hz
          · case isFalse hbool =>
              exact htestPtr htest (by rw [(hne hbt).1, Bool.or_true]) hbool (hne hbt).2 hz
      · case isFalse htest =>
          rw [Bool.not_eq_true] at htest
          split at hz
          · obtain ⟨hadd, c, hc, hct, hholds⟩ := genOpPtr_holds cw hbt hat hb ha hz
            refine ⟨c, (genOp_right cw hat hbt htest hadd).trans hc, ?_, hholds⟩
            rw [hct, hbt, typeOp_right htest hat]
          · cases hz
  · case _ hs ht hnot =>
      have hat := isPtr_of_not hs
      have hbt := isPtr_of_not ht
      rw [typeOp_arith hat hbt]
      exact genOp_arith cw hop hat hbt ha hb hz

end Operation

end Bucktoot.Ports.GenOp
