import Mathlib.Data.List.Induction
import Bucktoot.Ports.SymbolTableRuns

/-!
# What the linker promises

Whatever the compiler puts and sets, in any order:

* `lookups_refine` — a look-up finds what the calls made of a name;
* `hash_section_whole` — the hash section is one a loader can read;
* `run_unique` — a table that is only set has one symbol for a name;
* `strong_address_stays` — the address of a strong definition is final;
* `quiet_run_defines` — a run without messages took every strong definition;
* `run_visibility` — the most constraining visibility counts, in any order;
* `importAll_first` — the first address imported under a name is the one.
-/

namespace Bucktoot.Ports.SymbolTable

open Bucktoot.Verified.Chains

/-! ## Look-ups -/

/-- What `find_elf_sym` answers where a name has this definition. -/
def Answers (s : Symtab) (name : CString) (answer : Option SymDef) : Prop :=
  ∃ i, findElfSym s name = some i ∧
    match answer with
    | none => i = 0
    | some d => i ≠ 0 ∧ (s.data[i]?).map ElfSym.toSymDef = some d

theorem answers_definition {s : Symtab} (h : Sound s) (name : CString) :
    Answers s name (s.definition name) := by
  refine ⟨s.latest name, findElfSym_eq h name, ?_⟩
  cases hdef : s.definition name with
  | none => exact (definition_eq_none_iff h name).1 hdef
  | some d =>
      have h0 : s.latest name ≠ 0 := by
        intro h0
        rw [(definition_eq_none_iff h name).2 h0] at hdef
        cases hdef
      rw [Symtab.definition, if_neg h0] at hdef
      exact ⟨h0, hdef⟩

theorem definition_of_answers {s : Symtab} (h : Sound s) {name : CString}
    {d : SymDef} (ha : Answers s name (some d)) :
    s.definition name = some d := by
  obtain ⟨i, hfind, h0, hget⟩ := ha
  rw [findElfSym_eq h] at hfind
  obtain rfl := Option.some.inj hfind
  rw [Symtab.definition, if_neg h0, hget]

/-- An address is that of a definition, and else the name is missing. -/
theorem getElfSymAddr_eq {s : Symtab} (h : Sound s) (name : CString)
    (err : Bool) :
    getElfSymAddr s name err = some
      (match s.definition name with
      | some d =>
          if d.shndx = shnUndef then
            if err then .error (.notDefined name) else .ok 0
          else .ok d.value
      | none => if err then .error (.notDefined name) else .ok 0) := by
  obtain ⟨sym, hsym⟩ := exists_latest h name
  simp only [getElfSymAddr, findElfSym_eq h, hsym, Option.bind_eq_bind,
    Option.bind_some, Symtab.definition, Option.map_some]
  by_cases h0 : s.latest name = 0
  · simp only [h0, true_or, if_true]
    cases err <;> rfl
  · simp only [h0, false_or, if_false]
    by_cases hundef : sym.shndx = shnUndef
    · simp only [hundef, if_true]
      cases err <;> rfl
    · simp only [hundef, if_false]
      rfl

theorem newSymtab_definition (dynsym : Bool) :
    (newSymtab dynsym).definition = fun _ => none := by
  funext name
  refine (definition_eq_none_iff (newSymtab_sound dynsym) name).2 ?_
  have hlt := latest_lt (newSymtab_sound dynsym) name
  have hlen : (newSymtab dynsym).data.length = 1 := rfl
  omega

/-- A run from an empty table. -/
theorem run_start (bss : BitVec 16) (dynsym : Bool) (ops : List Op) :
    ∃ st, run bss ops (.start dynsym) = some st ∧ Sound st.symtab
      ∧ st.symtab.dynsym = dynsym
      ∧ st.symtab.definition = (effects bss dynsym ops fun _ => none).1
      ∧ st.errors = (effects bss dynsym ops fun _ => none).2 := by
  have hstart : Sound (LinkState.start dynsym).symtab := newSymtab_sound dynsym
  have hnone : (LinkState.start dynsym).symtab.definition = fun _ => none :=
    newSymtab_definition dynsym
  obtain ⟨st, hrun, hsound, hdyn, hdef, herrors⟩ := run_effects bss ops hstart
  rw [hnone] at hdef herrors
  exact ⟨st, hrun, hsound, hdyn, hdef, herrors⟩

theorem sound_of_run {bss : BitVec 16} {dynsym : Bool} {ops : List Op}
    {st : LinkState} (h : run bss ops (.start dynsym) = some st) :
    Sound st.symtab := by
  obtain ⟨st', hrun, hsound, -⟩ := run_start bss dynsym ops
  obtain rfl := Option.some.inj (h.symm.trans hrun)
  exact hsound

/-- After any calls a look-up ends, stays inside the sections, and finds what
the calls made of the name. -/
theorem lookups_refine (bss : BitVec 16) (dynsym : Bool) (ops : List Op) :
    ∃ st, run bss ops (.start dynsym) = some st
      ∧ st.errors = (effects bss dynsym ops fun _ => none).2
      ∧ ∀ name, Answers st.symtab name
        ((effects bss dynsym ops fun _ => none).1 name) := by
  obtain ⟨st, hrun, hsound, -, hdef, herrors⟩ := run_start bss dynsym ops
  refine ⟨st, hrun, herrors, fun name => ?_⟩
  rw [← hdef]
  exact answers_definition hsound name

/-- After any calls the hash section starts with a power of two buckets and the
number of symbols, there are at most twice as many symbols that are not local as
buckets, and every bucket chains the symbols that hash to it. -/
theorem hash_section_whole (bss : BitVec 16) (dynsym : Bool) (ops : List Op) :
    ∃ st k, run bss ops (.start dynsym) = some st
      ∧ st.symtab.hash[0]? = some (2 ^ k)
      ∧ st.symtab.hash[1]? = some st.symtab.data.length
      ∧ st.symtab.hash.length = 2 + 2 ^ k + st.symtab.data.length
      ∧ (st.symtab.data.countP fun sym => !sym.isLocal) ≤ 2 * 2 ^ k
      ∧ ∀ b < 2 ^ k, ∃ i, st.symtab.hash[2 + b]? = some i
        ∧ Walks (fun i => st.symtab.hash[2 + 2 ^ k + i]?) i
          (members (st.symtab.bucket (2 ^ k)) b st.symtab.data.length) := by
  obtain ⟨st, hrun, ⟨nb, h⟩, -⟩ := run_start bss dynsym ops
  obtain ⟨k, rfl⟩ := h.pow
  refine ⟨st, k, hrun, h.slots.count, h.nsyms, h.slots.size, ?_,
    h.slots.chained⟩
  rw [← h.hashed]
  exact h.load

/-! ## Tables that are set -/

/-- Calls that leave no second symbol of a name. -/
def Op.Sets : Op → Prop
  | .put d _ => d.isLocal = true
  | .set _ _ => True

/-- What a call says about a name. -/
def Op.given (name : CString) : Op → Option SymDef
  | .put _ _ => none
  | .set d n => if d.isLocal = false ∧ n = name then some d else none

theorem effect_name {op : Op} (h : op.Sets) (bss : BitVec 16) (dynsym : Bool)
    (m : Definitions) (name : CString) :
    op.effect bss dynsym m name
      = match op.given name with
        | none => m name
        | some d =>
            match m name with
            | none => some d
            | some old => some (settle bss dynsym old d).kept := by
  cases op with
  | put d n => simp [Op.effect, Op.given, show d.isLocal = true from h]
  | set d n =>
      cases hloc : d.isLocal with
      | true => simp [Op.effect, Op.given, hloc]
      | false =>
          by_cases hn : n = name
          · subst hn
            cases hold : m n <;> simp [Op.effect, Op.given, hloc, hold]
          · have hn' : name ≠ n := Ne.symm hn
            cases hold : m n <;>
              simp [Op.effect, Op.given, hloc, hold, hn, hn']

/-- No two symbols that are not local have one name. -/
def Unique (s : Symtab) : Prop :=
  ∀ i j name, s.key i = some name → s.key j = some name → i = j

theorem unique_iff (s : Symtab) :
    Unique s ↔ ∀ i name, s.key i = some name → i = s.latest name := by
  constructor
  · intro h i name hi
    obtain ⟨hfound, hlast⟩ := latest_spec s name
    by_cases h0 : s.latest name = 0
    · by_contra hne
      exact hlast i (by omega) hi
    · exact h i _ name hi (hfound h0)
  · intro h i j name hi hj
    rw [h i name hi, h j name hj]

/-- A new symbol is the only one of its name where the name was free. -/
theorem Appends.unique {s s' : Symtab} {d : SymDef} {name : CString}
    (ha : Appends s s' d name) (h : Sound s) (hunique : Unique s)
    (hfree : d.isLocal = true ∨ s.latest name = 0) : Unique s' := by
  rw [unique_iff] at hunique ⊢
  intro i m hi
  by_cases hm : d.isLocal = true ∨ m ≠ name
  · rw [latest_congr (ha.key_ne h hm)]
    exact hunique i m ((ha.key_ne h hm i).1 hi)
  · obtain ⟨hloc, hname⟩ := not_or.1 hm
    obtain rfl := not_not.1 hname
    have hloc : d.isLocal = false := by simpa using hloc
    have h0 := hfree.resolve_left (by simp [hloc])
    rw [ha.latest_self hloc]
    rcases Nat.lt_trichotomy i s.data.length with hlt | heq | hgt
    · obtain ⟨nb, hat⟩ := h
      rw [ha.key_of_lt hat.named hlt] at hi
      have hi0 := hunique i m hi
      rw [hi0, h0, hat.null] at hi
      cases hi
    · exact heq
    · have hlen := ha.length_eq
      rw [key_eq_none_of_le (by omega)] at hi
      cases hi

theorem apply_unique {st st' : LinkState} (h : Sound st.symtab)
    (hunique : Unique st.symtab) {bss : BitVec 16} {op : Op} (hop : op.Sets)
    (happly : op.apply bss st = some st') : Unique st'.symtab := by
  cases op with
  | put d name =>
      obtain ⟨s', hput, -, -, happ, -⟩ := putElfSym_refines h bss d name
      rw [Op.apply, hput] at happly
      obtain rfl := Option.some.inj happly
      exact happ.unique h hunique (.inl hop)
  | set d name =>
      by_cases hfree : d.isLocal = true ∨ st.symtab.latest name = 0
      · obtain ⟨s', hput, -, -, happ, -⟩ :=
          putElfSym_refines h bss d (some name)
        rw [Op.apply, setElfSym_free h bss hfree, hput] at happly
        obtain rfl := Option.some.inj happly
        exact happ.unique h hunique hfree
      · obtain ⟨hloc, h0⟩ := not_or.1 hfree
        have hloc : d.isLocal = false := by simpa using hloc
        obtain ⟨sym, hsym⟩ := exists_latest h name
        rw [Op.apply, setElfSym_taken h bss hloc h0 hsym] at happly
        obtain rfl := Option.some.inj happly
        have hkept := settle_latest_isLocal bss st.symtab.dynsym hloc h0 hsym
        intro i j n hi hj
        simp only [LinkState.settled] at hi hj
        rw [replace_key hsym hkept] at hi hj
        exact hunique i j n hi hj

/-- A table that is only set has one symbol for a name. -/
theorem run_unique (bss : BitVec 16) (dynsym : Bool) (ops : List Op)
    (hops : ∀ op ∈ ops, op.Sets) :
    ∃ st, run bss ops (.start dynsym) = some st ∧ Unique st.symtab := by
  have hrun : ∀ (ops : List Op) (st : LinkState), (∀ op ∈ ops, op.Sets) →
      Sound st.symtab → Unique st.symtab →
      ∃ st', run bss ops st = some st' ∧ Unique st'.symtab := by
    intro ops
    induction ops with
    | nil => exact fun st _ _ hunique => ⟨st, rfl, hunique⟩
    | cons op rest ih =>
        intro st hops hsound hunique
        obtain ⟨st₁, happly, hsound₁, -⟩ := op.apply_refines hsound bss
        obtain ⟨st₂, hrest, hunique₂⟩ :=
          ih st₁ (fun op hop => hops op (List.mem_cons_of_mem _ hop)) hsound₁
            (apply_unique hsound hunique (hops op List.mem_cons_self) happly)
        refine ⟨st₂, ?_, hunique₂⟩
        rw [run, List.foldlM_cons, happly]
        exact hrest
  refine hrun ops _ hops (newSymtab_sound dynsym) ?_
  intro i j name hi _
  have hzero : ∀ i name, (newSymtab dynsym).key i ≠ some name := by
    intro i name hkey
    cases i with
    | zero => cases hkey
    | succ i => cases hkey
  exact absurd hi (hzero i name)

theorem sampleName_noNul : (0 : UInt8) ∉ [109] := by decide

def sampleName : CString := ⟨[109], sampleName_noNul⟩

/-- A reference to `m`, a weak definition and one that is not. -/
def sampleReference : SymDef := ⟨0, 0, stInfo stbGlobal sttNotype, 0, shnUndef⟩

def sampleWeak : SymDef := ⟨16, 0, stInfo stbWeak sttNotype, 0, 1⟩

def sampleGlobal : SymDef := ⟨32, 0, stInfo stbGlobal sttNotype, 3, 1⟩

def sampleCalls : List Op :=
  [.set sampleReference sampleName, .set sampleWeak sampleName,
    .set sampleGlobal sampleName]

theorem sampleCalls_unique :
    ∃ st, run 3 sampleCalls (.start false) = some st ∧ Unique st.symtab :=
  run_unique 3 false sampleCalls (by simp [sampleCalls, Op.Sets])

/-! ## Strong definitions -/

/-- A strong definition of a name stays through the calls, but for its
visibility. -/
theorem effects_strong {bss : BitVec 16} (dynsym : Bool) {ops : List Op}
    (hops : ∀ op ∈ ops, op.Sets) {m : Definitions} {name : CString} {d : SymDef}
    (hdef : m name = some d) (hstrong : Strong bss d) :
    ∃ d', (effects bss dynsym ops m).1 name = some d' ∧ Strong bss d'
      ∧ Agrees d d' := by
  induction ops generalizing m d with
  | nil => exact ⟨d, hdef, hstrong, .refl d⟩
  | cons op rest ih =>
      have hrest := fun op hop => hops op (List.mem_cons_of_mem _ hop)
      have hstep := effect_name (hops op List.mem_cons_self) bss dynsym m name
      rw [hdef] at hstep
      cases hgiven : op.given name with
      | none =>
          rw [hgiven] at hstep
          exact ih hrest hstep hstrong
      | some new =>
          rw [hgiven] at hstep
          obtain ⟨hstrong₁, hagrees₁⟩ :=
            settle_strong dynsym hstrong new
          obtain ⟨d', hd', hstrong', hagrees'⟩ := ih hrest hstep hstrong₁
          exact ⟨d', hd', hstrong', hagrees₁.trans hagrees'⟩

/-- Once a name has a strong definition, `tcc_get_symbol` and the linker find
the same address after all further calls. -/
theorem strong_address_stays {bss : BitVec 16} {dynsym : Bool}
    {before ops : List Op} (hops : ∀ op ∈ ops, op.Sets) {st : LinkState}
    (hrun : run bss before (.start dynsym) = some st) {name : CString}
    {d : SymDef} (hdef : Answers st.symtab name (some d))
    (hstrong : Strong bss d) :
    ∃ st', run bss ops st = some st'
      ∧ tccGetSymbol st'.symtab name = some (.ok d.value)
      ∧ getElfSymAddr st'.symtab name true = some (.ok d.value) := by
  have hsound := sound_of_run hrun
  have hdefinition := definition_of_answers hsound hdef
  obtain ⟨st', hrun', hsound', -, heffects, -⟩ := run_effects bss ops hsound
  obtain ⟨d', hd', hstrong', hagrees⟩ :=
    effects_strong st.symtab.dynsym hops hdefinition hstrong
  have haddr (err : Bool) :
      getElfSymAddr st'.symtab name err = some (.ok d.value) := by
    rw [getElfSymAddr_eq hsound', heffects, hd']
    simp only [hstrong'.defined, if_false, hagrees.value]
  exact ⟨st', hrun', haddr false, haddr true⟩

def sampleState : LinkState :=
  (run 3 sampleCalls (.start false)).getD (.start false)

theorem sampleState_run :
    run 3 sampleCalls (.start false) = some sampleState := by decide +kernel

theorem sampleGlobal_strong : Strong 3 sampleGlobal := by
  constructor <;> decide

theorem sampleGlobal_stays :
    ∃ st', run 3 sampleCalls sampleState = some st'
      ∧ tccGetSymbol st'.symtab sampleName = some (.ok 32)
      ∧ getElfSymAddr st'.symtab sampleName true = some (.ok 32) :=
  strong_address_stays (by simp [sampleCalls, Op.Sets]) sampleState_run
    ⟨1, by decide +kernel, by decide, by decide +kernel⟩ sampleGlobal_strong

/-! ## Messages -/

/-- The call sets no bit of `.set`. -/
def Op.Plain : Op → Prop
  | .put d _ => d.other &&& stAsmSet = 0
  | .set d _ => d.other &&& stAsmSet = 0

theorem Strong.isLocal {bss : BitVec 16} {d : SymDef} (h : Strong bss d) :
    d.isLocal = false := by
  rw [SymDef.isLocal, h.bind]
  decide

/-- No definition has a bit of `.set` that no call gave it. -/
theorem effect_plain {op : Op} (hsets : op.Sets) (hop : op.Plain)
    (bss : BitVec 16) (dynsym : Bool) {m : Definitions}
    (hm : ∀ n d, m n = some d → d.other &&& stAsmSet = 0) :
    ∀ n d, op.effect bss dynsym m n = some d → d.other &&& stAsmSet = 0 := by
  intro n d hd
  rw [effect_name hsets] at hd
  cases hgiven : op.given n with
  | none =>
      rw [hgiven] at hd
      exact hm n d hd
  | some new =>
      have hnew : new.other &&& stAsmSet = 0 := by
        cases op with
        | put d' n' => cases hgiven
        | set d' n' =>
            rw [Op.given] at hgiven
            split at hgiven
            · obtain rfl := Option.some.inj hgiven
              exact hop
            · cases hgiven
      rw [hgiven] at hd
      cases hold : m n with
      | none =>
          rw [hold] at hd
          obtain rfl := Option.some.inj hd
          exact hnew
      | some old =>
          rw [hold] at hd
          obtain rfl := Option.some.inj hd
          exact settle_asmSet (hm n old hold) hnew

/-- A strong definition is what the name means after a call that sets it
without a message. -/
theorem effect_set_strong {bss : BitVec 16} {m : Definitions} {name : CString}
    {d : SymDef} (hm : ∀ n d, m n = some d → d.other &&& stAsmSet = 0)
    (hstrong : Strong bss d) (hvisible : Visible d)
    (hquiet : (Op.set d name).complaint bss false m = []) :
    ∃ d', (Op.set d name).effect bss false m name = some d' ∧ Strong bss d'
      ∧ Agrees d d' := by
  have hloc := hstrong.isLocal
  cases hold : m name with
  | none => exact ⟨d, by simp [Op.effect, hloc, hold], hstrong, .refl d⟩
  | some old =>
      have htwice : (settle bss false old d).twice = false := by
        simpa [Op.complaint, hloc, hold] using hquiet
      obtain ⟨hkept, hagrees⟩ :=
        settle_new_strong (hm name old hold) hstrong hvisible htwice
      exact ⟨_, by simp [Op.effect, hloc, hold], hkept, hagrees⟩

theorem effects_quiet {bss : BitVec 16} {ops : List Op}
    (hsets : ∀ op ∈ ops, op.Sets) (hplain : ∀ op ∈ ops, op.Plain)
    {m : Definitions}
    (hm : ∀ n d, m n = some d → d.other &&& stAsmSet = 0)
    (hquiet : (effects bss false ops m).2 = []) {name : CString} {d : SymDef}
    (hd : .set d name ∈ ops) (hstrong : Strong bss d) (hvisible : Visible d) :
    ∃ d', (effects bss false ops m).1 name = some d' ∧ Strong bss d'
      ∧ Agrees d d' := by
  induction ops generalizing m with
  | nil => cases hd
  | cons op rest ih =>
      have hsets' := fun op hop => hsets op (List.mem_cons_of_mem _ hop)
      have hplain' := fun op hop => hplain op (List.mem_cons_of_mem _ hop)
      obtain ⟨hhead, htail⟩ := List.append_eq_nil_iff.1 hquiet
      rcases List.mem_cons.1 hd with rfl | hd
      · obtain ⟨d₁, hd₁, hstrong₁, hagrees₁⟩ :=
          effect_set_strong hm hstrong hvisible hhead
        obtain ⟨d₂, hd₂, hstrong₂, hagrees₂⟩ :=
          effects_strong false hsets' hd₁ hstrong₁
        exact ⟨d₂, hd₂, hstrong₂, hagrees₁.trans hagrees₂⟩
      · exact ih hsets' hplain' (effect_plain (hsets op List.mem_cons_self)
          (hplain op List.mem_cons_self) bss false hm) htail hd

/-- A run without messages has, for every strong visible definition that was
set, its address under its name: no two of them differ. -/
theorem quiet_run_defines {bss : BitVec 16} {ops : List Op}
    (hsets : ∀ op ∈ ops, op.Sets) (hplain : ∀ op ∈ ops, op.Plain)
    {st : LinkState} (hrun : run bss ops (.start false) = some st)
    (hquiet : st.errors = []) {name : CString} {d : SymDef}
    (hd : .set d name ∈ ops) (hstrong : Strong bss d) (hvisible : Visible d) :
    getElfSymAddr st.symtab name true = some (.ok d.value)
      ∧ ∃ d', Answers st.symtab name (some d') ∧ Agrees d d' := by
  obtain ⟨st₀, hrun₀, hsound, -, hdef, herrors⟩ := run_start bss false ops
  obtain rfl := Option.some.inj (hrun.symm.trans hrun₀)
  rw [herrors] at hquiet
  obtain ⟨d', hd', hstrong', hagrees⟩ :=
    effects_quiet hsets hplain (fun _ _ h => by cases h) hquiet hd hstrong
      hvisible
  rw [← hdef] at hd'
  refine ⟨?_, d', hd' ▸ answers_definition hsound name, hagrees⟩
  rw [getElfSymAddr_eq hsound, hd']
  simp only [hstrong'.defined, if_false, hagrees.value]

theorem sampleGlobal_defines :
    getElfSymAddr sampleState.symtab sampleName true = some (.ok 32)
      ∧ ∃ d', Answers sampleState.symtab sampleName (some d')
        ∧ Agrees sampleGlobal d' :=
  quiet_run_defines (by simp [sampleCalls, Op.Sets])
    (by simp [sampleCalls, Op.Plain]; decide) sampleState_run
    (by decide +kernel) (by simp [sampleCalls]) sampleGlobal_strong
    ⟨by decide, by decide⟩

/-! ## Visibility -/

/-- The definitions of a name that calls set. -/
def givens (name : CString) (ops : List Op) : List SymDef :=
  ops.filterMap (Op.given name)

theorem effects_visibility {bss : BitVec 16} (dynsym : Bool) {ops : List Op}
    (hops : ∀ op ∈ ops, op.Sets) {m : Definitions} {name : CString} {d : SymDef}
    (hd : m name = some d) (hdef : d.shndx ≠ shnUndef) :
    ∃ d', (effects bss dynsym ops m).1 name = some d' ∧ d'.shndx ≠ shnUndef
      ∧ visibilityRank d'
        = ((givens name ops).map visibilityRank).foldl max
          (visibilityRank d) := by
  induction ops generalizing m d with
  | nil => exact ⟨d, hd, hdef, rfl⟩
  | cons op rest ih =>
      have hrest := fun op hop => hops op (List.mem_cons_of_mem _ hop)
      have hstep := effect_name (hops op List.mem_cons_self) bss dynsym m name
      rw [hd] at hstep
      cases hgiven : op.given name with
      | none =>
          rw [hgiven] at hstep
          obtain ⟨d', hd', hdef', hrank⟩ := ih hrest hstep hdef
          exact ⟨d', hd', hdef', by rw [hrank]; simp [givens, hgiven]⟩
      | some new =>
          rw [hgiven] at hstep
          obtain ⟨hdef₁, hrank₁⟩ :=
            settle_visibility bss dynsym hdef new
          obtain ⟨d', hd', hdef', hrank⟩ := ih hrest hstep hdef₁
          exact ⟨d', hd', hdef', by rw [hrank, hrank₁]; simp [givens, hgiven]⟩

/-- From the first definition of a name on, its visibility is the most
constraining of all that were set, whatever their order. -/
theorem run_visibility {bss : BitVec 16} {dynsym : Bool} {before ops : List Op}
    (hops : ∀ op ∈ ops, op.Sets) {st : LinkState}
    (hrun : run bss before (.start dynsym) = some st) {name : CString}
    {d : SymDef} (hd : Answers st.symtab name (some d))
    (hdef : d.shndx ≠ shnUndef) :
    ∃ st' d', run bss ops st = some st' ∧ Answers st'.symtab name (some d')
      ∧ d'.shndx ≠ shnUndef
      ∧ visibilityRank d'
        = ((givens name ops).map visibilityRank).foldl max
          (visibilityRank d) := by
  have hsound := sound_of_run hrun
  obtain ⟨st', hrun', hsound', -, heffects, -⟩ := run_effects bss ops hsound
  obtain ⟨d', hd', hdef', hrank⟩ :=
    effects_visibility st.symtab.dynsym hops
      (definition_of_answers hsound hd) hdef
  rw [← heffects] at hd'
  exact ⟨st', d', hrun', hd' ▸ answers_definition hsound' name, hdef', hrank⟩

theorem sampleState_visibility :
    ∃ st' d', run 3 sampleCalls sampleState = some st'
      ∧ Answers st'.symtab sampleName (some d') ∧ d'.shndx ≠ shnUndef
      ∧ visibilityRank d' = ((givens sampleName sampleCalls).map
        visibilityRank).foldl max (visibilityRank sampleGlobal) :=
  run_visibility (by simp [sampleCalls, Op.Sets]) sampleState_run
    ⟨1, by decide +kernel, by decide, by decide +kernel⟩ (by decide)

/-! ## Imports -/

/-- A symbol with the DLL it comes from; what the program offers comes from
DLL 0. -/
structure Import where
  dllIndex : BitVec 32
  name : CString
  value : BitVec 32
  deriving DecidableEq

def Import.symbol (imp : Import) : SymDef := importDef imp.dllIndex imp.value

/-- The call that imports it. -/
def Import.add (bss : BitVec 16) (st : LinkState) (imp : Import) :
    Option (Nat × LinkState) :=
  if imp.dllIndex = 0 then tccAddSymbol bss st imp.name imp.value
  else pePutimport bss st imp.dllIndex imp.name imp.value

/-- Either way it is a call of `set_elf_sym`. -/
theorem Import.add_eq (bss : BitVec 16) (st : LinkState) (imp : Import) :
    imp.add bss st = setElfSym bss st imp.symbol imp.name := by
  rw [add]
  split
  · rename_i hprogram
    rw [tccAddSymbol, pePutimport, symbol, hprogram]
  · rfl

/-- The imports of a run, one after the other. -/
def importAll (bss : BitVec 16) (imports : List Import) (st : LinkState) :
    Option LinkState :=
  imports.foldlM (fun st imp => (imp.add bss st).map Prod.snd) st

/-- The import that counts: the first with an address, or the last. -/
def winner (name : CString) (imports : List Import) : Option Import :=
  let own := imports.filter fun imp => imp.name == name
  (own.find? fun imp => imp.value != 0).or own.getLast?

theorem winner_concat (name : CString) (imports : List Import) (imp : Import) :
    winner name (imports ++ [imp])
      = if imp.name = name then
          match winner name imports with
          | none => some imp
          | some w => if w.value ≠ 0 then some w else some imp
        else winner name imports := by
  by_cases hname : imp.name = name
  · rw [if_pos hname]
    unfold winner
    simp only [List.filter_append, List.filter_cons, List.filter_nil, hname,
      beq_self_eq_true, if_true, List.find?_append, List.getLast?_concat]
    generalize imports.filter (fun imp => imp.name == name) = own
    cases hfind : own.find? fun imp => imp.value != 0 with
    | some w =>
        have hw := List.find?_some hfind
        simp only [Option.some_or]
        rw [if_pos (by simpa using hw)]
    | none =>
        have hlast : (own.getLast? = none)
            ∨ ∃ w, own.getLast? = some w ∧ w.value = 0 := by
          cases hl : own.getLast? with
          | none => exact .inl rfl
          | some w =>
              have hmem := List.mem_of_getLast? hl
              have hw := List.find?_eq_none.1 hfind w hmem
              exact .inr ⟨w, rfl, by simpa using hw⟩
        rcases hlast with hl | ⟨w, hl, hw⟩
        · by_cases himp : imp.value = 0#32 <;> simp [hl, himp]
        · by_cases himp : imp.value = 0#32 <;> simp [hl, hw, himp]
  · rw [if_neg hname]
    simp [winner, List.filter_append, hname]

theorem import_isLocal (imp : Import) : imp.symbol.isLocal = false := by
  show (stBind (stInfo stbGlobal sttNotype) == stbLocal) = false
  decide

theorem importAll_concat (bss : BitVec 16) (imports : List Import)
    (imp : Import) (st : LinkState) :
    importAll bss (imports ++ [imp]) st
      = (importAll bss imports st).bind fun st =>
          (setElfSym bss st imp.symbol imp.name).map Prod.snd := by
  rw [importAll, List.foldlM_append, importAll]
  simp only [List.foldlM_cons, List.foldlM_nil, bind_pure, Import.add_eq]
  rfl

/-- Every name means its winner, and there are no messages. -/
theorem importAll_definition (bss : BitVec 16) (imports : List Import) :
    ∃ st, importAll bss imports (.start true) = some st ∧ Sound st.symtab
      ∧ st.symtab.dynsym = true ∧ st.errors = []
      ∧ ∀ name, st.symtab.definition name
        = (winner name imports).map Import.symbol := by
  induction imports using List.reverseRecOn with
  | nil =>
      exact ⟨_, rfl, newSymtab_sound true, rfl, rfl,
        fun name => congrFun (newSymtab_definition true) name⟩
  | append_singleton imports imp ih =>
      obtain ⟨st, hrun, hsound, hdyn, hquiet, hdef⟩ := ih
      obtain ⟨i, st', hset, hsound', hdyn', -, heffect, herrors⟩ :=
        setElfSym_refines hsound bss imp.symbol imp.name
      have hloc := import_isLocal imp
      refine ⟨st', ?_, hsound', hdyn'.trans hdyn, ?_, fun name => ?_⟩
      · rw [importAll_concat, hrun, Option.bind_some, hset]
        rfl
      · rw [herrors, hquiet, hdyn]
        cases hold : st.symtab.definition imp.name <;>
          simp [Op.complaint, hloc, hold, settle_dynsym]
      · have hsets : (Op.set imp.symbol imp.name).Sets := trivial
        rw [heffect, hdyn, effect_name hsets, winner_concat]
        by_cases hname : imp.name = name
        · rw [hdef, if_pos hname]
          cases hwin : winner name imports with
          | none => simp [Op.given, hloc, hname]
          | some w =>
              have hkept := settle_import bss w.dllIndex w.value imp.dllIndex
                imp.value
              simp only [Op.given, hloc, hname, and_self, if_true,
                Option.map_some]
              rw [show (settle bss true w.symbol imp.symbol).kept = _
                from hkept]
              split_ifs <;> rfl
        · simp [Op.given, hname, hdef]

/-- After any imports, whatever their order, a name means the first address
that was imported under it. -/
theorem importAll_first (bss : BitVec 16) (imports : List Import) :
    ∃ st, importAll bss imports (.start true) = some st ∧ st.errors = []
      ∧ ∀ name, Answers st.symtab name
        ((winner name imports).map Import.symbol) := by
  obtain ⟨st, hrun, hsound, -, hquiet, hdef⟩ := importAll_definition bss imports
  refine ⟨st, hrun, hquiet, fun name => ?_⟩
  rw [← hdef]
  exact answers_definition hsound name

end Bucktoot.Ports.SymbolTable
