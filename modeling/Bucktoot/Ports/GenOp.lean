import Bucktoot.Ports.GenOpl
import Bucktoot.Verified.Words

/-!
# `gen_op`: the code for an operation

The compiler keeps the operands of an operation on its value stack.  `gen_cast`
brings them to a common type, and `gen_opic` computes what it knows at compile
time, drops what has no effect, takes shifts for multiplications and divisions,
and otherwise emits the operation.

* `Value`, `Value.word` — what an entry of the stack stands for, and the word
  that it is when the program runs;
* `genOpic`, `castWide`, `genOpInt`, `genOp`, `genCast` — the functions.
-/

namespace Bucktoot.Ports.GenOp

open Bucktoot.Verified.Words (InRange wrap)
open Bucktoot.Ports.Libtcc1

/-! ## Types -/

/-- The integer types, with `VT_UNSIGNED`, and pointers, with the type they
point to. -/
inductive CType where
  | bool
  | byte (unsigned : Bool)
  | short (unsigned : Bool)
  | int (unsigned : Bool)
  | llong (unsigned : Bool)
  | ptr (pointed : Nat)
  deriving DecidableEq, Repr

/-- `VT_UNSIGNED` is set. -/
def CType.unsigned : CType → Bool
  | .byte u | .short u | .int u | .llong u => u
  | .bool | .ptr _ => false

def CType.isLLong : CType → Bool
  | .llong _ => true
  | _ => false

def CType.isPtr : CType → Bool
  | .ptr _ => true
  | _ => false

/-- Equal but for the type that is pointed to. -/
def CType.same : CType → CType → Bool
  | .ptr _, .ptr _ => true
  | s, t => s = t

/-- What `pointed_size` and `is_compatible_types` say of the types that are
pointed to. -/
structure Pointees where
  size : Nat → Int
  compatible : Nat → Nat → Bool
  size_fits (p : Nat) : InRange false 32 (size p)

/-! ## The value stack -/

/-- A constant, the address of a symbol or of a local variable with an offset,
or what is loaded or computed when the program runs. -/
inductive Value where
  | const (i : DWord)
  | sym (s : Nat) (i : DWord)
  | frame (i : DWord)
  | var (t : CType) (x : Nat)
  | opi (op : Op) (a b : Value)
  | opl (op : Op) (a b : Value)
  | widen (unsigned : Bool) (a : Value)
  deriving DecidableEq, Repr

structure SValue where
  t : CType
  v : Value
  deriving DecidableEq, Repr

/-- `c.i` where the value is a constant. -/
def Value.const? : Value → Option DWord
  | .const i => some i
  | _ => none

/-- `vpushi` -/
def vpushi (v : BitVec 32) : SValue := ⟨.int false, .const (v.signExtend 64)⟩

/-! ## `gen_opic` -/

/-- The constant as the type of its operand has it. -/
def norm (t : CType) (l : DWord) : DWord :=
  if t.isLLong then l
  else (l &&& 0xffffffff) ||| (if t.unsigned then 0 else -(l &&& 0x80000000))

/-- `gen_opic_sdiv` -/
def genOpicSdiv (a b : DWord) : DWord :=
  let x := (if a >>> 63 ≠ 0 then -a else a) / (if b >>> 63 ≠ 0 then -b else b)
  if (a ^^^ b) >>> 63 ≠ 0 then -x else x

/-- `gen_opic_lt` -/
def genOpicLt (a b : DWord) : Bool :=
  a ^^^ ((1 : DWord) <<< 63) < b ^^^ ((1 : DWord) <<< 63)

def Op.divides : Op → Bool
  | .pdiv | .div | .mod | .udiv | .umod => true
  | _ => false

def Op.commutes : Op → Bool
  | .add | .and | .xor | .or | .mul => true
  | _ => false

/-- Both operands are constants and there is no division by zero. -/
def foldConst (op : Op) (shm l1 l2 : DWord) : DWord :=
  match op with
  | .add => l1 + l2
  | .sub => l1 - l2
  | .and => l1 &&& l2
  | .xor => l1 ^^^ l2
  | .or => l1 ||| l2
  | .mul => l1 * l2
  | .pdiv | .div => genOpicSdiv l1 l2
  | .mod => l1 - l2 * genOpicSdiv l1 l2
  | .udiv => l1 / l2
  | .umod => l1 % l2
  | .shl => l1 <<< (l2 &&& shm).toNat
  | .shr => l1 >>> (l2 &&& shm).toNat
  | .sar =>
      if l1 >>> 63 ≠ 0 then ~~~(~~~l1 >>> (l2 &&& shm).toNat)
      else l1 >>> (l2 &&& shm).toNat
  | .ult => truth (l1 < l2)
  | .uge => truth (l1 ≥ l2)
  | .eq => truth (l1 = l2)
  | .ne => truth (l1 ≠ l2)
  | .ule => truth (l1 ≤ l2)
  | .ugt => truth (l1 > l2)
  | .lt => truth (genOpicLt l1 l2)
  | .ge => truth (!genOpicLt l1 l2)
  | .le => truth (!genOpicLt l2 l1)
  | .gt => truth (genOpicLt l2 l1)
  | .land => truth (l1 ≠ 0 && l2 ≠ 0)
  | .lor => truth (l1 ≠ 0 || l2 ≠ 0)

/-- The loop that counts the bits of a power of two.  A word has 64 of them. -/
def countBits : Nat → DWord → Nat → Nat
  | 0, _, n => n
  | fuel + 1, l2, n => if l2 ≠ 0 then countBits fuel (l2 >>> 1) (n + 1) else n

/-- The shift for a multiplication or a division. -/
def shiftFor : Op → Op
  | .mul => .shl
  | .pdiv => .sar
  | _ => .shr

/-- The low level operation. -/
def general (t1 t2 : CType) (op : Op) (v1 v2 : Value) : Value :=
  if t1.isLLong || t2.isLLong then .opl op v1 v2 else .opi op v1 v2

/-- The second operand has all bits set. -/
def allOnes (t2 : CType) (l2 : DWord) : Bool :=
  l2 = -1 || (l2 = 0xffffffff && !t2.isLLong)

/-- The offset behind the address of a symbol or of a local variable. -/
def Value.addend? : Value → Option DWord
  | .sym _ i | .frame i => some i
  | _ => none

/-- The same address with another offset. -/
def Value.withAddend : Value → DWord → Value
  | .sym s _, i => .sym s i
  | .frame _, i => .frame i
  | v, _ => v

/-- NOP operations like `x * 1`, `x - 0` and `x & -1`. -/
def drops (op : Op) (t2 : CType) (l2 : DWord) : Bool :=
  ((op = .mul || op = .div || op = .udiv || op = .pdiv) && l2 = 1) ||
    ((op = .add || op = .sub || op = .or || op = .xor || op.isShift) && l2 = 0) ||
    (op = .and && allOnes t2 l2)

/-- `x & 0`, `x * 0`, `x | -1` and `x % 1`. -/
def decides (op : Op) (t2 : CType) (l2 : DWord) : Bool :=
  ((op = .and || op = .mul) && l2 = 0) || (op = .or && allOnes t2 l2) ||
    ((op = .mod || op = .umod) && l2 = 1)

/-- The second operand is known. -/
def reduceRight (constWanted : Bool) (op : Op) (t1 t2 : CType) (a b : Value)
    (l2 : DWord) : Value :=
  if !constWanted && decides op t2 l2 then if l2 = 1 then .const 0 else b
  else if drops op t2 l2 then a
  else if op = .mul || op = .pdiv || op = .udiv then
    if l2 ≠ 0 ∧ l2 &&& (l2 - 1) = 0 then
      -- the count begins at -1
      let n := BitVec.ofNat 64 (countBits 64 l2 0) - 1
      general t1 t2 (shiftFor op) a (.const n)
    else general t1 t2 op a b
  else if op = .add || op = .sub then
    match a.addend? with
    | none => general t1 t2 op a b
    | some i =>
        let l2 := (if op = .sub then -l2 else l2) + i
        if (low l2).signExtend 64 ≠ l2 then general t1 t2 op a b
        else a.withAddend l2
  else general t1 t2 op a b

/-- One operand is not known, or none is. -/
def reduce (constWanted : Bool) (op : Op) (t1 t2 : CType) (v1 v2 : Value)
    (l1 l2 : Option DWord) : Value :=
  -- if commutative ops, put c2 as constant
  let swap := l1.isSome && op.commutes
  let a := if swap then v2 else v1
  let b := if swap then v1 else v2
  if !constWanted && ((l1 = some 0 && op.isShift) || (l1 = some (-1) && op = .sar))
  then a
  else
    match if swap then l1 else l2 with
    | none => general t1 t2 op a b
    | some l2 => reduceRight constWanted op t1 t2 a b l2

/-- `gen_opic` -/
def genOpic (constWanted : Bool) (op : Op) (t1 t2 : CType) (v1 v2 : Value) :
    Except String Value :=
  let shm := if t1.isLLong then 63 else 31
  match v1.const?.map (norm t1), v2.const?.map (norm t2) with
  | some l1, some l2 =>
      if op.divides && l2 = 0 then
        if constWanted then .error "division by zero in constant"
        else .ok (general t1 t2 op v1 v2)
      else .ok (.const (norm t1 (foldConst op shm l1 l2)))
  | l1, l2 => .ok (reduce constWanted op t1 t2 v1 v2 l1 l2)

/-! ## `gen_cast` to the types of operations -/

/-- A constant of one type as a constant of another. -/
def castConst (s t : CType) (i : DWord) : DWord :=
  let i :=
    if s.isLLong then i
    else (i &&& 0xffffffff) ||| (if s.unsigned then 0 else -(i &&& 0x80000000))
  match t with
  | .llong _ => i
  | .bool => truth (i ≠ 0)
  | _ =>
      let m : DWord :=
        match t with
        | .byte _ => 0xff
        | .short _ => 0xffff
        | _ => 0xffffffff
      let i := i &&& m
      if t.unsigned then i else i ||| -(i &&& ((m >>> 1) + 1))

/-- `gen_cast` to `int` and to `long long`. -/
def castWide (t : CType) (a : SValue) : SValue :=
  if a.t.same t then ⟨t, a.v⟩
  else
    match a.v.const? with
    | some i => ⟨t, .const (castConst a.t t i)⟩
    | none =>
        -- a new high word, or none any more
        if t.isLLong && !a.t.isLLong then ⟨t, .widen (a.t = .int true) a.v⟩
        else ⟨t, a.v⟩

/-! ## `gen_op` -/

/-- The operator for unsigned operands. -/
def unsignedOp : Op → Op
  | .sar => .shr
  | .div => .udiv
  | .mod => .umod
  | .lt => .ult
  | .gt => .ugt
  | .le => .ule
  | .ge => .uge
  | op => op

/-- From `std_op` on: the operands are cast to `t`. -/
def stdOp (constWanted : Bool) (op : Op) (t : CType) (a b : SValue) :
    Except String SValue :=
  let op := if t.unsigned then unsignedOp op else op
  let a := castWide t a
  -- the count of a shift is an integer
  let b := castWide (if op.isShift then .int false else t) b
  (genOpic constWanted op a.t b.t a.v b.v).map fun v =>
    ⟨if op.isTest then .int false else t, v⟩

/-- The type that an operation on integers is done in. -/
def opType (op : Op) (t1 t2 : CType) : CType :=
  if op.isShift then
    if t1.isLLong then .llong (t1 = .llong true) else .int (t1 = .int true)
  else if t1.isLLong || t2.isLLong then
    .llong (t1 = .llong true || t2 = .llong true)
  else .int (t1 = .int true || t2 = .int true)

/-- `gen_op` for integers. -/
def genOpInt (constWanted : Bool) (op : Op) (a b : SValue) :
    Except String SValue :=
  stdOp constWanted op (opType op a.t b.t) a b

/-- `is_null_pointer`.  A constant of the types `char`, `short` and `_Bool` is
not one. -/
def isNullPointer (a : SValue) : Bool :=
  match a.t, a.v.const? with
  | .int _, some i | .ptr _, some i => low i = 0
  | .llong _, some i => i = 0
  | _, _ => false

/-- `check_comparison_pointer_types`.  The warnings are left out. -/
def checkComparison (ty : Pointees) (op : Op) (a b : SValue) :
    Except String Unit :=
  let invalid := .error "invalid operands to binary"
  if isNullPointer a || isNullPointer b then .ok ()
  else
    match a.t, b.t with
    | .ptr p, .ptr q => if op = .sub ∧ !ty.compatible p q then invalid else .ok ()
    | .ptr _, .bool | .bool, .ptr _ | .bool, .bool => invalid
    | _, _ => if op ≠ .sub then .ok () else invalid

/-- `gen_op` with a pointer and an integer. -/
def genOpPtr (ty : Pointees) (constWanted : Bool) (op : Op) (p : Nat)
    (a b : SValue) : Except String SValue := do
  let b := if b.t.isLLong then castWide (.int false) b else b
  let u := ty.size p
  if u < 0 then .error "unknown array element size"
  else do
    let b ← genOpInt constWanted .mul b (vpushi (BitVec.ofInt 32 u))
    let v ← genOpic constWanted op a.t b.t a.v b.v
    -- put again type if gen_opic() swapped operands
    .ok ⟨.ptr p, v⟩

/-- `gen_op` -/
def genOp (ty : Pointees) (constWanted : Bool) (op : Op) (a b : SValue) :
    Except String SValue :=
  if a.t.isPtr || b.t.isPtr then
    if op.isTest then do
      checkComparison ty op a b
      stdOp constWanted op (.int true) a b
    else
      match a.t, b.t with
      | .ptr p, .ptr _ =>
          if op ≠ .sub then .error "cannot use pointers here"
          else do
            checkComparison ty op a b
            let size := vpushi (BitVec.ofInt 32 (ty.size p))
            let v ← genOpic constWanted op a.t b.t a.v b.v
            genOpInt constWanted .pdiv ⟨.int false, v⟩ size
      | .ptr p, _ =>
          if op ≠ .sub ∧ op ≠ .add then .error "cannot use pointers here"
          else genOpPtr ty constWanted op p a b
      | _, .ptr p =>
          if op ≠ .sub ∧ op ≠ .add then .error "cannot use pointers here"
          else genOpPtr ty constWanted op p b a
      | _, _ => genOpInt constWanted op a b
  else genOpInt constWanted op a b

/-! ## `gen_cast` -/

/-- `force_charshort_cast` -/
def forceCharshortCast (constWanted : Bool) (t : CType) (a : SValue) :
    Except String SValue :=
  let bits : Nat := match t with
    | .byte _ => 8
    | _ => 16
  if t.unsigned then
    genOpInt constWanted .and a (vpushi ((1 <<< bits) - 1))
  else
    let bits := (if a.t.isLLong then 64 else 32) - bits
    do
      let a ← genOpInt constWanted .shl a (vpushi (BitVec.ofNat 32 bits))
      -- result must be signed or the SAR is converted to an SHL
      let t := if a.t.isLLong then .llong false else .int false
      genOpInt constWanted .sar ⟨t, a.v⟩ (vpushi (BitVec.ofNat 32 bits))

/-- `gen_cast` -/
def genCast (ty : Pointees) (constWanted : Bool) (t : CType) (a : SValue) :
    Except String SValue :=
  if a.t.same t then .ok ⟨t, a.v⟩
  else
    match a.v, t with
    | .const i, _ => .ok ⟨t, .const (castConst a.t t i)⟩
    | .sym _ _, .bool => .ok ⟨t, .const 1⟩
    | _, .llong _ | _, .int _ | _, .ptr _ => .ok (castWide t a)
    | _, .bool => (genOp ty constWanted .ne a (vpushi 0)).map fun b => ⟨t, b.v⟩
    | _, .byte _ | _, .short _ =>
        let a := if a.t.isPtr then ⟨.int false, a.v⟩ else a
        (forceCharshortCast constWanted t a).map fun b => ⟨t, b.v⟩

/-! ## When the program runs -/

/-- `sizeof` in bits. -/
def CType.bits : CType → Nat
  | .bool | .byte _ => 8
  | .short _ => 16
  | .int _ | .ptr _ => 32
  | .llong _ => 64

/-- The conversion of an integer to a type. -/
def convert (t : CType) (x : Int) : Int :=
  if t = .bool then if x = 0 then 0 else 1 else wrap t.unsigned t.bits x

/-- The values of the variables, the addresses of the symbols, and the frame
pointer. -/
structure Env where
  var : Nat → Int
  sym : Nat → Word
  frame : Word

/-- The word that a value is.  Of a type that is not `long long` the upper half
does not matter. -/
def Value.word (env : Env) : Value → Option DWord
  | .const i => some i
  | .sym s i => some ((env.sym s + low i).setWidth 64)
  | .frame i => some ((env.frame + low i).setWidth 64)
  | .var t x => some (BitVec.ofInt 64 (convert t (env.var x)))
  | .opi op a b => do
      let x ← a.word env
      let y ← b.word env
      let r ← genOpi op (low x) (low y)
      some (r.setWidth 64)
  | .opl op a b => do
      let x ← a.word env
      let y ← b.word env
      genOpl b.const?.isSome op x y
  | .widen unsigned a => do
      let x ← a.word env
      some (if unsigned then (low x).setWidth 64 else (low x).signExtend 64)

end Bucktoot.Ports.GenOp
