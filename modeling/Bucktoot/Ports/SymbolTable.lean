import Mathlib.Data.List.TakeWhile
import Bucktoot.Verified.Chains

/-!
# The symbol table of the linker

A symbol table is a section of symbols, a section of strings their names point
into, and a section that chains the symbols that are not local by the hash of
their names.  The tables are read as C reads memory: a read outside a section,
or a string without an end, has no value.

* `CString`, `readStr`, `putElfStr` — the string section;
* `hashSym`, `rebuildHash`, `putElfSym`, `findElfSym` — the hash section;
* `resolve`, `setElfSym` — what a second symbol of the same name does;
* `getElfSymAddr`, `pePutimport` — the calls the game makes;
* `Op`, `run` — what the compiler and the linker do with a table.
-/

namespace Bucktoot.Ports.SymbolTable

open Bucktoot.Verified.Chains

/-! ## Strings -/

/-- The bytes of a C string before its end. -/
structure CString where
  bytes : List UInt8
  noNul : 0 ∉ bytes
  deriving DecidableEq

def CString.empty : CString := ⟨[], List.not_mem_nil⟩

theorem zero_notMem_takeWhile (l : List UInt8) :
    0 ∉ l.takeWhile (· != 0) := by
  intro h
  simpa using List.mem_takeWhile_imp h

/-- The string at an offset of a string section. -/
def readStr (strtab : List UInt8) (offset : Nat) : Option CString :=
  if 0 ∈ strtab.drop offset then
    some ⟨(strtab.drop offset).takeWhile (· != 0), zero_notMem_takeWhile _⟩
  else none

/-- `put_elf_str`: the offset, and the section with the string behind it. -/
def putElfStr (strtab : List UInt8) (sym : CString) : Nat × List UInt8 :=
  (strtab.length, strtab ++ (sym.bytes ++ [0]))

/-- One character of `elf_hash`, on an `unsigned long` of 32 bits. -/
def elfHashStep (h : UInt32) (c : UInt8) : UInt32 :=
  let h := (h <<< 4) + c.toUInt32
  let g := h &&& 0xf0000000
  let h := if g ≠ 0 then h ^^^ (g >>> 24) else h
  h &&& ~~~g

def elfHash (name : CString) : Nat := (name.bytes.foldl elfHashStep 0).toNat

/-! ## Symbols -/

def stbLocal : BitVec 8 := 0
def stbGlobal : BitVec 8 := 1
def stbWeak : BitVec 8 := 2

def sttNotype : BitVec 8 := 0

def stvDefault : BitVec 8 := 0
def stvInternal : BitVec 8 := 1
def stvHidden : BitVec 8 := 2

def shnUndef : BitVec 16 := 0
def shnLoreserve : BitVec 16 := 0xff00
def shnAbs : BitVec 16 := 0xfff1
def shnCommon : BitVec 16 := 0xfff2

def stAsmSet : BitVec 8 := 0x04

/-- `ELF32_ST_BIND` -/
def stBind (info : BitVec 8) : BitVec 8 := info >>> 4

/-- `ELF32_ST_TYPE` -/
def stType (info : BitVec 8) : BitVec 8 := info &&& 0xf

/-- `ELF32_ST_INFO` -/
def stInfo (bind type : BitVec 8) : BitVec 8 := (bind <<< 4) + (type &&& 0xf)

/-- `ELF32_ST_VISIBILITY` -/
def stVisibility (o : BitVec 8) : BitVec 8 := o &&& 0x03

/-- What an `Elf32_Sym` says besides the name. -/
structure SymDef where
  value : BitVec 32
  size : BitVec 32
  info : BitVec 8
  other : BitVec 8
  shndx : BitVec 16
  deriving DecidableEq, Repr

/-- `Elf32_Sym`: the name is an offset of the string section. -/
structure ElfSym extends SymDef where
  name : Nat
  deriving DecidableEq, Repr

def SymDef.isLocal (d : SymDef) : Bool := stBind d.info == stbLocal

/-- A symbol section with the sections it is linked to. -/
structure Symtab where
  data : List ElfSym
  strtab : List UInt8
  hash : List Nat
  nbHashedSyms : Nat
  dynsym : Bool
  deriving DecidableEq

/-- `new_symtab`: the null symbol, the empty string and one empty bucket. -/
def newSymtab (dynsym : Bool) : Symtab where
  data := [⟨⟨0, 0, 0, 0, 0⟩, 0⟩]
  strtab := (putElfStr [] .empty).2
  hash := [1, 1, 0, 0]
  nbHashedSyms := 0
  dynsym := dynsym

/-- The name of a symbol. -/
def Symtab.nameOf (s : Symtab) (i : Nat) : Option CString := do
  let sym ← s.data[i]?
  readStr s.strtab sym.name

/-- The hashing entry of symbol `i`, behind those there are.  The hash section
is the number of buckets, the number of symbols, the buckets and the links. -/
def hashSym (strtab : List UInt8) (hash : List Nat) (nbuckets i : Nat)
    (sym : ElfSym) : Option (List Nat) :=
  if sym.isLocal then some (hash ++ [0])
  else do
    let name ← readStr strtab sym.name
    let h := elfHash name % nbuckets
    let first ← hash[2 + h]?
    return (hash ++ [first]).set (2 + h) i

/-- `rebuild_hash` -/
def rebuildHash (s : Symtab) (nbuckets : Nat) : Option Symtab := do
  let nbuckets ← if nbuckets = 0 then s.hash[0]? else some nbuckets
  let nbSyms := s.data.length
  let hash ← (List.range' 1 (nbSyms - 1)).foldlM (fun hash i => do
      let sym ← s.data[i]?
      hashSym s.strtab hash nbuckets i sym)
    ([nbuckets, nbSyms] ++ List.replicate (nbuckets + 1) 0)
  return { s with hash := hash }

/-- The name offset that `put_elf_sym` stores, and the strings after it. -/
def putName (strtab : List UInt8) : Option CString → Nat × List UInt8
  | none => (0, strtab)
  | some name => if name.bytes = [] then (0, strtab) else putElfStr strtab name

/-- `put_elf_sym` -/
def putElfSym (s : Symtab) (d : SymDef) (name : Option CString) :
    Option (Nat × Symtab) := do
  let (nameOffset, strtab) := putName s.strtab name
  let sym : ElfSym := ⟨d, nameOffset⟩
  let symIndex := s.data.length
  let s := { s with data := s.data ++ [sym], strtab := strtab }
  let nbuckets ← s.hash[0]?
  let hash ← hashSym strtab s.hash nbuckets symIndex sym
  let s := { s with hash := hash.modify 1 (· + 1) }
  if d.isLocal then return (symIndex, s)
  else
    let s := { s with nbHashedSyms := s.nbHashedSyms + 1 }
    if s.nbHashedSyms > 2 * nbuckets then
      return (symIndex, ← rebuildHash s (2 * nbuckets))
    else return (symIndex, s)

/-- `find_elf_sym` -/
def findElfSym (s : Symtab) (name : CString) : Option Nat := do
  let nbuckets ← s.hash[0]?
  let symIndex ← s.hash[2 + elfHash name % nbuckets]?
  search (fun i => s.hash[2 + nbuckets + i]?)
    (fun i => (s.nameOf i).map (name == ·)) s.data.length symIndex

/-! ## Symbols of the same name -/

/-- The most constraining of two visibilities. -/
def mergeVisibility (esymVis symVis : BitVec 8) : BitVec 8 :=
  if esymVis = stvDefault then symVis
  else if symVis = stvDefault then esymVis
  else if esymVis < symVis then esymVis
  else symVis

/-- What becomes of a symbol that there is when one of its name comes. -/
structure Resolution where
  kept : SymDef
  patched : Bool
  twice : Bool
  deriving DecidableEq, Repr

/-- `do_patch` -/
def doPatch (new : SymDef) (other : BitVec 8) : Resolution where
  kept := { new with
    info := stInfo (stBind new.info) (stType new.info), other := other }
  patched := true
  twice := false

/-- The existing symbol with the visibility of both. -/
def propagate (esym new : SymDef) : SymDef :=
  { esym with
    other := (esym.other &&& ~~~(0x03 : BitVec 8))
      ||| mergeVisibility (stVisibility esym.other) (stVisibility new.other) }

/-- The cases of `set_elf_sym` for an existing symbol; `bss` is the number of
the section of that name. -/
def resolve (bss : BitVec 16) (dynsym : Bool) (esym new : SymDef) :
    Resolution :=
  if esym.shndx ≠ shnUndef then
    let symBind := stBind new.info
    let esymBind := stBind esym.info
    let symVis := stVisibility new.other
    let esym := propagate esym new
    if new.shndx = shnUndef then ⟨esym, false, false⟩
    else if symBind = stbGlobal ∧ esymBind = stbWeak then
      doPatch new esym.other
    else if symBind = stbWeak ∧ esymBind = stbGlobal then ⟨esym, false, false⟩
    else if symBind = stbWeak ∧ esymBind = stbWeak then ⟨esym, false, false⟩
    else if symVis = stvHidden ∨ symVis = stvInternal then ⟨esym, false, false⟩
    else if (esym.shndx = shnCommon ∨ esym.shndx = bss)
        ∧ (new.shndx < shnLoreserve ∧ new.shndx ≠ bss) then
      doPatch new esym.other
    else if new.shndx = shnCommon ∨ new.shndx = bss then ⟨esym, false, false⟩
    else if dynsym then ⟨esym, false, false⟩
    else if esym.other &&& stAsmSet ≠ 0 then doPatch new esym.other
    else ⟨esym, false, true⟩
  else doPatch new new.other

/-- Messages of the linker. -/
inductive LinkError where
  | definedTwice (name : CString)
  | notDefined (name : CString)
  deriving DecidableEq

def LinkError.text : LinkError → List UInt8
  | .definedTwice name =>
      "'".toUTF8.toList ++ name.bytes ++ "' defined twice".toUTF8.toList
  | .notDefined name => name.bytes ++ " not defined".toUTF8.toList

/-- A table, the flag `new_undef_sym` and the messages so far. -/
structure LinkState where
  symtab : Symtab
  newUndefSym : Bool
  errors : List LinkError
  deriving DecidableEq

/-- `set_elf_sym` -/
def setElfSym (bss : BitVec 16) (st : LinkState) (d : SymDef) (name : CString) :
    Option (Nat × LinkState) := do
  let symIndex ← if d.isLocal then some 0 else findElfSym st.symtab name
  if symIndex = 0 then
    let d := { d with info := stInfo (stBind d.info) (stType d.info) }
    let (symIndex, symtab) ← putElfSym st.symtab d (some name)
    return (symIndex, { st with symtab := symtab })
  else
    let esym ← st.symtab.data[symIndex]?
    if esym.toSymDef = d then return (symIndex, st)
    else
      let r := resolve bss st.symtab.dynsym esym.toSymDef d
      return (symIndex, {
        symtab := { st.symtab with
          data := st.symtab.data.set symIndex ⟨r.kept, esym.name⟩ }
        newUndefSym := st.newUndefSym || r.patched
        errors :=
          if r.twice then st.errors ++ [.definedTwice name] else st.errors })

/-! ## What callers ask -/

/-- `get_elf_sym_addr`: with `err` a missing symbol is a message. -/
def getElfSymAddr (s : Symtab) (name : CString) (err : Bool) :
    Option (Except LinkError (BitVec 32)) := do
  let symIndex ← findElfSym s name
  let sym ← s.data[symIndex]?
  if symIndex = 0 ∨ sym.shndx = shnUndef then
    if err then return .error (.notDefined name) else return .ok 0
  else return .ok sym.value

/-- `tcc_get_symbol` -/
def tccGetSymbol (s : Symtab) (name : CString) :
    Option (Except LinkError (BitVec 32)) :=
  getElfSymAddr s name false

/-- The symbol that `pe_putimport` sets: the size is the number of the DLL. -/
def importDef (dllIndex value : BitVec 32) : SymDef where
  value := value
  size := dllIndex
  info := stInfo stbGlobal sttNotype
  other := 0
  shndx := if value ≠ 0 then shnAbs else shnUndef

/-- `pe_putimport`, on the dynamic symbols. -/
def pePutimport (bss : BitVec 16) (st : LinkState) (dllIndex : BitVec 32)
    (name : CString) (value : BitVec 32) : Option (Nat × LinkState) :=
  setElfSym bss st (importDef dllIndex value) name

/-- `tcc_add_symbol`: what the program itself offers comes from DLL 0. -/
def tccAddSymbol (bss : BitVec 16) (st : LinkState) (name : CString)
    (val : BitVec 32) : Option (Nat × LinkState) :=
  pePutimport bss st 0 name val

/-! ## Runs -/

/-- A call that changes a symbol table. -/
inductive Op where
  | put (d : SymDef) (name : Option CString)
  | set (d : SymDef) (name : CString)
  deriving DecidableEq

def Op.apply (bss : BitVec 16) (st : LinkState) : Op → Option LinkState
  | .put d name =>
      (putElfSym st.symtab d name).map fun r => { st with symtab := r.2 }
  | .set d name => (setElfSym bss st d name).map Prod.snd

/-- The calls of a run, one after the other. -/
def run (bss : BitVec 16) (ops : List Op) (st : LinkState) :
    Option LinkState :=
  ops.foldlM (Op.apply bss) st

/-- A linker with an empty table. -/
def LinkState.start (dynsym : Bool) : LinkState := ⟨newSymtab dynsym, false, []⟩

end Bucktoot.Ports.SymbolTable
