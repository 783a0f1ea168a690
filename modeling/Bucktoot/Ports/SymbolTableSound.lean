import Mathlib
import Bucktoot.Ports.SymbolTable

/-!
# The hash section of a symbol table

Whatever is put into a table, its hash section stays whole: the chain of a
bucket is the symbols that hash to it, the youngest first, through every
resizing.  So a search reads no memory outside the sections, ends, and finds the
youngest symbol of a name.

* `readStr_eq_some_iff` — what a string section holds at an offset;
* `Slots`, `hashSym_slots`, `rebuildHash_slots` — the hash section;
* `SoundAt`, `Sound` — the invariant of a table;
* `putElfSym_sound`, `findElfSym_eq` — what the two functions do;
* `run_sound` — a run never fails.
-/

namespace Bucktoot.Ports.SymbolTable

open Bucktoot.Verified.Chains

/-! ## Strings -/

theorem exists_takeWhile {l : List UInt8} (h : 0 ∈ l) :
    ∃ rest, l = l.takeWhile (· != 0) ++ 0 :: rest := by
  induction l with
  | nil => cases h
  | cons c l ih =>
      by_cases hc : c = 0
      · exact ⟨l, by simp [hc]⟩
      · have hl : 0 ∈ l := by simpa [Ne.symm hc] using h
        obtain ⟨rest, hrest⟩ := ih hl
        refine ⟨rest, ?_⟩
        rw [List.takeWhile_cons_of_pos (by simpa using hc), List.cons_append,
          ← hrest]

theorem takeWhile_string (name : CString) (rest : List UInt8) :
    (name.bytes ++ 0 :: rest).takeWhile (· != 0) = name.bytes := by
  have hall : ∀ c ∈ name.bytes, (c != 0) = true := by
    intro c hc
    have hne : c ≠ 0 := fun h0 => name.noNul (h0 ▸ hc)
    simpa using hne
  rw [List.takeWhile_append_of_pos hall, List.takeWhile_cons_of_neg (by simp),
    List.append_nil]

/-- An offset holds a string when its bytes and the end are there. -/
theorem readStr_eq_some_iff {strtab : List UInt8} {offset : Nat}
    {name : CString} :
    readStr strtab offset = some name
      ↔ ∃ rest, strtab.drop offset = name.bytes ++ 0 :: rest := by
  constructor
  · intro h
    rw [readStr] at h
    split at h
    · rename_i hmem
      obtain ⟨rest, hrest⟩ := exists_takeWhile hmem
      obtain rfl := Option.some.inj h
      exact ⟨rest, hrest⟩
    · cases h
  · rintro ⟨rest, hrest⟩
    have hmem : 0 ∈ strtab.drop offset := by simp [hrest]
    rw [readStr, if_pos hmem]
    congr 1
    cases name
    simp only [hrest]
    congr 1
    exact takeWhile_string ⟨_, ‹_›⟩ rest

/-- What is put behind a string does not change it. -/
theorem readStr_append {strtab : List UInt8} {offset : Nat} {name : CString}
    (h : readStr strtab offset = some name) (more : List UInt8) :
    readStr (strtab ++ more) offset = some name := by
  obtain ⟨rest, hrest⟩ := readStr_eq_some_iff.1 h
  have hle : offset ≤ strtab.length := by
    by_contra hlt
    have hnil : strtab.drop offset = [] := List.drop_eq_nil_of_le (by omega)
    simp [hnil] at hrest
  refine readStr_eq_some_iff.2 ⟨rest ++ more, ?_⟩
  rw [List.drop_append_of_le_length hle, hrest]
  simp

theorem readStr_putElfStr (strtab : List UInt8) (name : CString) :
    readStr (putElfStr strtab name).2 (putElfStr strtab name).1
      = some name := by
  refine readStr_eq_some_iff.2 ⟨[], ?_⟩
  simp [putElfStr]

/-- The string section grows by what `put_elf_sym` stores, and the offset it
stores has the name. -/
theorem putName_spec {strtab : List UInt8}
    (hempty : readStr strtab 0 = some .empty) (name : Option CString) :
    (∃ more, (putName strtab name).2 = strtab ++ more)
      ∧ readStr (putName strtab name).2 (putName strtab name).1
        = some (name.getD .empty) := by
  cases name with
  | none => exact ⟨⟨[], by simp [putName]⟩, hempty⟩
  | some name =>
      by_cases hnil : name.bytes = []
      · have hname : name = .empty := by
          cases name
          cases hnil
          rfl
        simp only [putName, if_pos hnil]
        exact ⟨⟨[], by simp⟩, by rw [hempty, hname, Option.getD_some]⟩
      · simp only [putName, if_neg hnil]
        exact ⟨⟨_, rfl⟩, readStr_putElfStr strtab name⟩

/-! ## The hash section -/

/-- The name a symbol is found by. -/
def symKey (strtab : List UInt8) (sym : ElfSym) : Option CString :=
  if sym.isLocal then none else readStr strtab sym.name

def Symtab.key (s : Symtab) (i : Nat) : Option CString := do
  let sym ← s.data[i]?
  symKey s.strtab sym

/-- The bucket of a symbol. -/
def Symtab.bucket (s : Symtab) (nbuckets i : Nat) : Option Nat :=
  (s.key i).map fun name => elfHash name % nbuckets

/-- A hash section for the symbols below `n`. -/
structure Slots (hash : List Nat) (nbuckets : Nat) (bucket : Nat → Option Nat)
    (n : Nat) : Prop where
  pos : 0 < nbuckets
  count : hash[0]? = some nbuckets
  size : hash.length = 2 + nbuckets + n
  chained : Chained (fun b => hash[2 + b]?) (fun i => hash[2 + nbuckets + i]?)
    bucket nbuckets n

theorem Slots.congr {hash : List Nat} {nbuckets n : Nat}
    {bucket bucket' : Nat → Option Nat} (h : Slots hash nbuckets bucket n)
    (heq : ∀ i < n, bucket' i = bucket i) : Slots hash nbuckets bucket' n where
  pos := h.pos
  count := h.count
  size := h.size
  chained := h.chained.congr (fun _ _ => rfl) (fun _ _ => rfl) heq

/-- The number of symbols is in no chain. -/
theorem Slots.modify {hash : List Nat} {nbuckets n : Nat}
    {bucket : Nat → Option Nat} (h : Slots hash nbuckets bucket n)
    (f : Nat → Nat) : Slots (hash.modify 1 f) nbuckets bucket n where
  pos := h.pos
  count := by rw [List.getElem?_modify_ne f hash (by omega), h.count]
  size := by rw [List.length_modify, h.size]
  chained := h.chained.congr
    (fun _ _ => List.getElem?_modify_ne f hash (by omega))
    (fun _ _ => List.getElem?_modify_ne f hash (by omega)) (fun _ _ => rfl)

/-- An empty hash section, for the null symbol alone. -/
theorem Slots.start {nbuckets n : Nat} (hpos : 0 < nbuckets)
    {bucket : Nat → Option Nat} (h0 : bucket 0 = none) :
    Slots ([nbuckets, n] ++ List.replicate (nbuckets + 1) 0) nbuckets bucket 1
    where
  pos := hpos
  count := rfl
  size := by simp; omega
  chained := by
    refine .start (fun b hb => ?_) h0
    rw [List.getElem?_append_right (by simp)]
    simp [show b < nbuckets + 1 by omega]

/-- The entry of the next symbol. -/
theorem hashSym_slots {strtab : List UInt8} {hash : List Nat} {nbuckets n : Nat}
    (sym : ElfSym) {bucket : Nat → Option Nat}
    (h : Slots hash nbuckets bucket n) (hn : 0 < n)
    (hread : (readStr strtab sym.name).isSome)
    (hbucket : bucket n
      = (symKey strtab sym).map fun name => elfHash name % nbuckets) :
    ∃ hash', hashSym strtab hash nbuckets n sym = some hash'
      ∧ Slots hash' nbuckets bucket (n + 1) ∧ hash'[1]? = hash[1]? := by
  have hsize := h.size
  by_cases hloc : sym.isLocal = true
  · have hkey : bucket n = none := by rw [hbucket]; simp [symKey, hloc]
    have hsame : ∀ k < hash.length, (hash ++ [0])[k]? = hash[k]? :=
      fun k hk => List.getElem?_append_left hk
    refine ⟨hash ++ [0], by simp [hashSym, hloc], ⟨h.pos, ?_, ?_, ?_⟩, ?_⟩
    · rw [hsame 0 (by omega), h.count]
    · simp [hsize]; omega
    · exact h.chained.skip hkey (fun b hb => hsame _ (by omega))
        (fun i hi => hsame _ (by omega))
    · exact hsame 1 (by omega)
  · obtain ⟨name, hname⟩ := Option.isSome_iff_exists.1 hread
    have hkey : bucket n = some (elfHash name % nbuckets) := by
      rw [hbucket]; simp [symKey, hloc, hname]
    have hlt := Nat.mod_lt (elfHash name) h.pos
    generalize hc : elfHash name % nbuckets = c at hkey hlt
    obtain ⟨first, hfirst⟩ : ∃ first, hash[2 + c]? = some first :=
      ⟨_, List.getElem?_eq_getElem (by omega)⟩
    have hsame : ∀ k < hash.length, k ≠ 2 + c →
        ((hash ++ [first]).set (2 + c) n)[k]? = hash[k]? := by
      intro k hk hne
      rw [List.getElem?_set_ne (Ne.symm hne), List.getElem?_append_left hk]
    refine ⟨(hash ++ [first]).set (2 + c) n, ?_, ⟨h.pos, ?_, ?_, ?_⟩, ?_⟩
    · simp [hashSym, hloc, hname, hc, hfirst]
    · rw [hsame 0 (by omega) (by omega), h.count]
    · simp [hsize]; omega
    · refine h.chained.link hn hkey
        (fun b hb hne => hsame _ (by omega) (by omega)) ?_
        (fun i hi => hsame _ (by omega) (by omega)) ?_
      · exact List.getElem?_set_self (by simp; omega)
      · have hlast : 2 + nbuckets + n = hash.length := hsize.symm
        rw [List.getElem?_set_ne (by omega), hlast, List.getElem?_concat_length]
        exact hfirst.symm
    · exact hsame 1 (by omega) (by omega)

/-- A new hash section for the symbols of a table. -/
theorem rebuildHash_slots (s : Symtab) {nbuckets : Nat} (hpos : 0 < nbuckets)
    (hnull : s.key 0 = none) (hlen : 0 < s.data.length)
    (hnamed : ∀ sym ∈ s.data, (readStr s.strtab sym.name).isSome) :
    ∃ hash, rebuildHash s nbuckets = some { s with hash := hash }
      ∧ Slots hash nbuckets (s.bucket nbuckets) s.data.length
      ∧ hash[1]? = some s.data.length := by
  -- the loop has entered the symbols up to `k`
  have hloop : ∀ k < s.data.length,
      ∃ hash, (List.range' 1 k).foldlM (fun hash i => do
          let sym ← s.data[i]?
          hashSym s.strtab hash nbuckets i sym)
        ([nbuckets, s.data.length] ++ List.replicate (nbuckets + 1) 0)
          = some hash
        ∧ Slots hash nbuckets (s.bucket nbuckets) (k + 1)
        ∧ hash[1]? = some s.data.length := by
    intro k hk
    induction k with
    | zero =>
        refine ⟨_, rfl, .start hpos ?_, rfl⟩
        simp [Symtab.bucket, hnull]
    | succ k ih =>
        obtain ⟨hash, hrun, hslots, hcount⟩ := ih (by omega)
        obtain ⟨sym, hsym⟩ : ∃ sym, s.data[k + 1]? = some sym :=
          ⟨_, List.getElem?_eq_getElem hk⟩
        obtain ⟨hash', hstep, hslots', hcount'⟩ :=
          hashSym_slots sym hslots (Nat.succ_pos k)
            (hnamed sym (List.mem_of_getElem? hsym))
            (by simp [Symtab.bucket, Symtab.key, hsym])
        refine ⟨hash', ?_, hslots', hcount'.trans hcount⟩
        rw [List.range'_1_concat, List.foldlM_append, hrun]
        simpa [Nat.add_comm 1 k, hsym] using hstep
  obtain ⟨hash, hrun, hslots, hcount⟩ := hloop (s.data.length - 1) (by omega)
  rw [Nat.sub_add_cancel hlen] at hslots
  refine ⟨hash, ?_, hslots, hcount⟩
  simp only [rebuildHash, if_neg (Nat.pos_iff_ne_zero.1 hpos),
    Option.bind_eq_bind, Option.bind_some]
  simp only [Option.bind_eq_bind] at hrun
  rw [hrun]
  rfl

/-! ## The invariant -/

/-- A table with `nbuckets` buckets whose three sections agree. -/
structure SoundAt (s : Symtab) (nbuckets : Nat) : Prop where
  pow : ∃ k, nbuckets = 2 ^ k
  slots : Slots s.hash nbuckets (s.bucket nbuckets) s.data.length
  nsyms : s.hash[1]? = some s.data.length
  null : s.key 0 = none
  nonempty : 0 < s.data.length
  named : ∀ sym ∈ s.data, (readStr s.strtab sym.name).isSome
  empty : readStr s.strtab 0 = some .empty
  hashed : s.nbHashedSyms = s.data.countP fun sym => !sym.isLocal
  load : s.nbHashedSyms ≤ 2 * nbuckets

def Sound (s : Symtab) : Prop := ∃ nbuckets, SoundAt s nbuckets

theorem newSymtab_sound (dynsym : Bool) : Sound (newSymtab dynsym) := by
  have hempty : readStr (newSymtab dynsym).strtab 0 = some .empty :=
    readStr_putElfStr [] .empty
  have hnull : (newSymtab dynsym).key 0 = none := rfl
  refine ⟨1, ⟨0, rfl⟩, ?_, rfl, hnull, Nat.one_pos, ?_, hempty, rfl,
    Nat.zero_le 2⟩
  · exact Slots.start Nat.one_pos (by simp [Symtab.bucket, hnull])
  · intro sym hsym
    obtain rfl : sym = ⟨⟨0, 0, 0, 0, 0⟩, 0⟩ := by simpa [newSymtab] using hsym
    exact Option.isSome_iff_exists.2 ⟨_, hempty⟩

theorem key_eq_none_of_le {s : Symtab} {i : Nat} (h : s.data.length ≤ i) :
    s.key i = none := by
  simp [Symtab.key, List.getElem?_eq_none h]

theorem symKey_append {strtab : List UInt8} {sym : ElfSym}
    (h : (readStr strtab sym.name).isSome) (more : List UInt8) :
    symKey (strtab ++ more) sym = symKey strtab sym := by
  obtain ⟨name, hname⟩ := Option.isSome_iff_exists.1 h
  rw [symKey, symKey, hname, readStr_append hname]

/-- A table that got one more symbol of this name. -/
structure Appends (s s' : Symtab) (d : SymDef) (name : CString) : Prop where
  data : ∃ offset, s'.data = s.data ++ [⟨d, offset⟩]
    ∧ readStr s'.strtab offset = some name
  strtab : ∃ more, s'.strtab = s.strtab ++ more
  dynsym : s'.dynsym = s.dynsym

namespace Appends

variable {s s' : Symtab} {d : SymDef} {name : CString}

theorem length_eq (h : Appends s s' d name) :
    s'.data.length = s.data.length + 1 := by
  obtain ⟨offset, hdata, -⟩ := h.data
  simp [hdata]

theorem getElem?_of_lt (h : Appends s s' d name) {i : Nat}
    (hi : i < s.data.length) : s'.data[i]? = s.data[i]? := by
  obtain ⟨offset, hdata, -⟩ := h.data
  rw [hdata, List.getElem?_append_left hi]

theorem getElem?_last (h : Appends s s' d name) :
    (s'.data[s.data.length]?).map ElfSym.toSymDef = some d := by
  obtain ⟨offset, hdata, -⟩ := h.data
  rw [hdata, List.getElem?_concat_length, Option.map_some]

/-- The symbols there were keep their names. -/
theorem key_of_lt (h : Appends s s' d name)
    (hnamed : ∀ sym ∈ s.data, (readStr s.strtab sym.name).isSome) {i : Nat}
    (hi : i < s.data.length) : s'.key i = s.key i := by
  obtain ⟨more, hmore⟩ := h.strtab
  rw [Symtab.key, Symtab.key, h.getElem?_of_lt hi, List.getElem?_eq_getElem hi,
    hmore]
  exact symKey_append (hnamed _ (List.getElem_mem hi)) more

theorem key_last (h : Appends s s' d name) :
    s'.key s.data.length = if d.isLocal then none else some name := by
  obtain ⟨offset, hdata, hname⟩ := h.data
  simp [Symtab.key, symKey, hdata, hname]

theorem named (h : Appends s s' d name)
    (hnamed : ∀ sym ∈ s.data, (readStr s.strtab sym.name).isSome) :
    ∀ sym ∈ s'.data, (readStr s'.strtab sym.name).isSome := by
  obtain ⟨offset, hdata, hname⟩ := h.data
  obtain ⟨more, hmore⟩ := h.strtab
  intro sym hsym
  rw [hdata] at hsym
  rcases List.mem_append.1 hsym with hold | hnew
  · obtain ⟨n, hn⟩ := Option.isSome_iff_exists.1 (hnamed sym hold)
    rw [hmore, readStr_append hn]
    rfl
  · obtain rfl := List.mem_singleton.1 hnew
    exact Option.isSome_iff_exists.2 ⟨name, hname⟩

end Appends

theorem Appends.bucket_of_lt {s s' : Symtab} {d : SymDef} {name : CString}
    (h : Appends s s' d name)
    (hnamed : ∀ sym ∈ s.data, (readStr s.strtab sym.name).isSome)
    (nbuckets : Nat) {i : Nat} (hi : i < s.data.length) :
    s'.bucket nbuckets i = s.bucket nbuckets i :=
  congrArg (Option.map _) (h.key_of_lt hnamed hi)

/-- The null symbol stays, and it has no name. -/
theorem SoundAt.null_append {s s' : Symtab} {nbuckets : Nat}
    (h : SoundAt s nbuckets) {d : SymDef} {name : CString}
    (ha : Appends s s' d name) : s'.key 0 = none :=
  (ha.key_of_lt h.named h.nonempty).trans h.null

/-- A longer table is sound once its hash section is right. -/
theorem SoundAt.append {s s' : Symtab} {nbuckets nbuckets' : Nat}
    (h : SoundAt s nbuckets) {d : SymDef} {name : CString}
    (ha : Appends s s' d name) (hpow : ∃ k, nbuckets' = 2 ^ k)
    (hslots : Slots s'.hash nbuckets' (s'.bucket nbuckets') s'.data.length)
    (hcount : s'.hash[1]? = some s'.data.length)
    (hhashed : s'.nbHashedSyms
      = s.nbHashedSyms + if d.isLocal then 0 else 1)
    (hload : s'.nbHashedSyms ≤ 2 * nbuckets') : SoundAt s' nbuckets' := by
  obtain ⟨offset, hdata, -⟩ := ha.data
  obtain ⟨more, hmore⟩ := ha.strtab
  refine ⟨hpow, hslots, hcount, h.null_append ha, ?_, ha.named h.named, ?_, ?_,
    hload⟩
  · rw [ha.length_eq]
    exact Nat.succ_pos _
  · rw [hmore, readStr_append h.empty]
  · rw [hhashed, hdata, List.countP_append, ← h.hashed]
    cases hloc : d.isLocal <;> simp [hloc]

/-- `put_elf_sym` reads no memory outside the sections and keeps the table
sound, also where the hash section is rebuilt. -/
theorem putElfSym_sound {s : Symtab} (h : Sound s) (d : SymDef)
    (name : Option CString) :
    ∃ s', putElfSym s d name = some (s.data.length, s') ∧ Sound s'
      ∧ Appends s s' d (name.getD .empty) := by
  obtain ⟨nb, h⟩ := h
  obtain ⟨⟨more, hmore⟩, hname⟩ := putName_spec h.empty name
  generalize hput : putName s.strtab name = out at hmore hname
  obtain ⟨offset, strtab⟩ := out
  -- the table with its new symbol, whatever becomes of the hash section
  have happ : ∀ hash n, Appends s
      ⟨s.data ++ [⟨d, offset⟩], strtab, hash, n, s.dynsym⟩ d
      (name.getD .empty) :=
    fun hash n => ⟨⟨offset, rfl, hname⟩, ⟨more, hmore⟩, rfl⟩
  have hlen : (s.data ++ [(⟨d, offset⟩ : ElfSym)]).length
      = s.data.length + 1 := by simp
  have hslots₀ := h.slots.congr
    fun i hi => (happ s.hash 0).bucket_of_lt h.named nb hi
  obtain ⟨hash, hstep, hslots, hcount⟩ :=
    hashSym_slots ⟨d, offset⟩ hslots₀ h.nonempty
      (Option.isSome_iff_exists.2 ⟨_, hname⟩)
      (by simp [Symtab.bucket, Symtab.key])
  obtain ⟨hash₁, hmodify⟩ : ∃ hash₁, hash.modify 1 (· + 1) = hash₁ := ⟨_, rfl⟩
  have hcount₁ : hash₁[1]? = some (s.data.length + 1) := by
    rw [← hmodify, List.getElem?_modify_eq, hcount, h.nsyms]
    rfl
  have hslots₁ := hslots.modify (· + 1)
  rw [hmodify, ← hlen] at hslots₁
  rw [← hlen] at hcount₁
  by_cases hloc : d.isLocal = true
  · refine ⟨_, ?_, ⟨nb, h.append (happ _ s.nbHashedSyms) h.pow hslots₁ hcount₁
      (by simp [hloc]) h.load⟩, happ _ _⟩
    simp [putElfSym, hput, h.slots.count, hstep, hmodify, hloc]
  · by_cases hfull : s.nbHashedSyms + 1 > 2 * nb
    · obtain ⟨k, hk⟩ := h.pow
      have hpos := h.slots.pos
      have hload := h.load
      obtain ⟨hash₂, hrun, hslots₂, hcount₂⟩ :=
        rebuildHash_slots ⟨s.data ++ [⟨d, offset⟩], strtab,
            hash₁, s.nbHashedSyms + 1, s.dynsym⟩
          (show 0 < 2 * nb by omega) (h.null_append (happ _ _))
          (by rw [hlen]; exact Nat.succ_pos _)
          ((happ _ _).named h.named)
      refine ⟨_, ?_, ⟨2 * nb, h.append (happ hash₂ (s.nbHashedSyms + 1))
        ⟨k + 1, by rw [hk, Nat.pow_succ, Nat.mul_comm]⟩ hslots₂ hcount₂
        (by simp [hloc]) (show s.nbHashedSyms + 1 ≤ 2 * (2 * nb) by omega)⟩,
        happ _ _⟩
      simp only [putElfSym, hput, h.slots.count, hstep, hmodify, hloc, hfull,
        hrun, Option.bind_eq_bind, Option.bind_some, if_true, if_false,
        Bool.false_eq_true]
      rfl
    · refine ⟨_, ?_, ⟨nb, h.append (happ _ (s.nbHashedSyms + 1)) h.pow
        hslots₁ hcount₁ (by simp [hloc])
        (show s.nbHashedSyms + 1 ≤ 2 * nb by omega)⟩, happ _ _⟩
      simp only [putElfSym, hput, h.slots.count, hstep, hmodify, hloc, hfull,
        Option.bind_eq_bind, Option.bind_some, if_false, Bool.false_eq_true]
      rfl

/-! ## The search -/

/-- The youngest symbol of a name that is not local, or 0. -/
def Symtab.latest (s : Symtab) (name : CString) : Nat :=
  Nat.findGreatest (fun i => s.key i = some name) (s.data.length - 1)

/-- `find_elf_sym` ends and finds the youngest symbol of the name. -/
theorem findElfSym_eq {s : Symtab} (h : Sound s) (name : CString) :
    findElfSym s name = some (s.latest name) := by
  obtain ⟨nb, h⟩ := h
  have hlen : s.data.length - 1 + 1 = s.data.length :=
    Nat.sub_add_cancel h.nonempty
  have hchained := h.slots.chained
  rw [← hlen] at hchained
  have hread : ∀ k < s.data.length - 1 + 1,
      (s.nameOf k).map (name == ·) = some ((s.nameOf k) == some name) := by
    intro k hk
    have hlt : k < s.data.length := by omega
    obtain ⟨n, hn⟩ := Option.isSome_iff_exists.1
      (h.named _ (List.getElem_mem hlt))
    have hname : s.nameOf k = some n := by
      simp [Symtab.nameOf, List.getElem?_eq_getElem hlt, hn]
    rw [hname]
    simp [BEq.comm]
  obtain ⟨i, hi, hsearch⟩ := hchained.search_eq
    (Nat.mod_lt (elfHash name) h.slots.pos) hread
  have hpred : ∀ i, (s.bucket nb i = some (elfHash name % nb)
      ∧ (s.nameOf i == some name) = true) ↔ s.key i = some name := by
    intro i
    cases hsym : s.data[i]? with
    | none => simp [Symtab.bucket, Symtab.key, Symtab.nameOf, hsym]
    | some sym =>
        by_cases hloc : sym.isLocal = true
        · simp [Symtab.bucket, Symtab.key, symKey, hsym, hloc]
        · have hkey : s.key i = s.nameOf i := by
            simp [Symtab.key, symKey, Symtab.nameOf, hsym, hloc]
          rw [Symtab.bucket, hkey]
          constructor
          · exact fun hboth => by simpa using hboth.2
          · exact fun hname => by simp [hname]
  simp only [findElfSym, h.slots.count, Option.bind_eq_bind, Option.bind_some,
    hi]
  rw [← hlen, hsearch]
  simp only [Symtab.latest, hpred]

/-- What is found: 0 if no symbol has the name, or the youngest. -/
theorem latest_spec (s : Symtab) (name : CString) :
    (s.latest name ≠ 0 → s.key (s.latest name) = some name)
      ∧ ∀ i, s.latest name < i → s.key i ≠ some name := by
  constructor
  · exact fun h0 => Nat.findGreatest_of_ne_zero rfl h0
  · intro i hi hkey
    by_cases hle : i ≤ s.data.length - 1
    · exact Nat.findGreatest_is_greatest hi hle hkey
    · rw [key_eq_none_of_le (by omega)] at hkey
      cases hkey

end Bucktoot.Ports.SymbolTable
