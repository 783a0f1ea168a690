import Bucktoot.Ports.SymbolTable

/-!
# Two definitions of one name

What becomes of a definition when another of its name is set, case by case in
the order the linker asks.

* `resolve_cases` — the old one stays, or the new one takes its place;
* `visibilityRank`, `settle_visibility` — the most constraining visibility;
* `Strong`, `settle_strong` — what later definitions do not change;
* `settle_new_strong` — a strong definition is taken or complained about;
* `settle_import` — an address is never taken back.
-/

namespace Bucktoot.Ports.SymbolTable

/-- What becomes of a definition when another of its name is set. -/
def settle (bss : BitVec 16) (dynsym : Bool) (old new : SymDef) : Resolution :=
  if old = new then ⟨old, false, false⟩ else resolve bss dynsym old new

/-! ## Bits -/

theorem stInfo_self : ∀ info : BitVec 8,
    stInfo (stBind info) (stType info) = info := by decide +kernel

theorem doPatch_kept (new : SymDef) (other : BitVec 8) :
    (doPatch new other).kept = { new with other := other } := by
  rw [doPatch, stInfo_self]

theorem stVisibility_cases : ∀ o : BitVec 8, stVisibility o = 0
    ∨ stVisibility o = 1 ∨ stVisibility o = 2 ∨ stVisibility o = 3 := by
  decide +kernel

/-- Merging chooses one of the two. -/
theorem mergeVisibility_choice (v w : BitVec 8) :
    mergeVisibility v w = v ∨ mergeVisibility v w = w := by
  unfold mergeVisibility
  split_ifs
  · exact .inr rfl
  · exact .inl rfl
  · exact .inl rfl
  · exact .inr rfl

theorem stVisibility_mask (o : BitVec 8) :
    stVisibility o &&& 3 = stVisibility o := by
  rw [stVisibility, BitVec.and_assoc, BitVec.and_self]

theorem stVisibility_propagate (old new : SymDef) :
    stVisibility (propagate old new).other
      = mergeVisibility (stVisibility old.other) (stVisibility new.other) := by
  have hmerge : mergeVisibility (stVisibility old.other)
      (stVisibility new.other) &&& 3
        = mergeVisibility (stVisibility old.other)
          (stVisibility new.other) := by
    rcases mergeVisibility_choice (stVisibility old.other)
      (stVisibility new.other) with h | h <;> rw [h, stVisibility_mask]
  have hclear : old.other &&& ~~~(3 : BitVec 8) &&& 3 = 0#8 := by
    rw [BitVec.and_assoc]
    simp
  rw [stVisibility, propagate, BitVec.and_or_distrib_right, hmerge, hclear,
    BitVec.zero_or]

/-- The visibility bits leave the bit of `.set` alone. -/
theorem propagate_asmSet (old new : SymDef) :
    (propagate old new).other &&& stAsmSet = old.other &&& stAsmSet := by
  have hvis : ∀ o, stVisibility o &&& stAsmSet = 0#8 := by
    intro o
    have hmask : (3 : BitVec 8) &&& stAsmSet = 0#8 := by decide
    rw [stVisibility, BitVec.and_assoc, hmask, BitVec.and_zero]
  have hmerge : mergeVisibility (stVisibility old.other)
      (stVisibility new.other) &&& stAsmSet = 0#8 := by
    rcases mergeVisibility_choice (stVisibility old.other)
      (stVisibility new.other) with h | h <;> rw [h, hvis]
  rw [propagate, BitVec.and_or_distrib_right, hmerge, BitVec.or_zero,
    BitVec.and_assoc]
  rfl

/-! ## The cases -/

/-- A definition that no later symbol takes the place of. -/
structure Strong (bss : BitVec 16) (d : SymDef) : Prop where
  bind : stBind d.info = stbGlobal
  defined : d.shndx ≠ shnUndef
  notCommon : d.shndx ≠ shnCommon
  notBss : d.shndx ≠ bss
  notSet : d.other &&& stAsmSet = 0

/-- A definition that other modules see. -/
def Visible (d : SymDef) : Prop :=
  stVisibility d.other ≠ stvHidden ∧ stVisibility d.other ≠ stvInternal

/-- A definition that this new one takes the place of. -/
def Yields (bss : BitVec 16) (dynsym : Bool) (old new : SymDef) : Prop :=
  stBind old.info = stbWeak
  ∨ ((old.shndx = shnCommon ∨ old.shndx = bss) ∧ new.shndx < shnLoreserve)
  ∨ (dynsym = false ∧ old.other &&& stAsmSet ≠ 0)

theorem Strong.not_yields {bss : BitVec 16} {dynsym : Bool} {old new : SymDef}
    (h : Strong bss old) : ¬ Yields bss dynsym old new := by
  rintro (hweak | ⟨hcommon, -⟩ | ⟨-, hset⟩)
  · exact absurd (h.bind.symm.trans hweak) (by decide)
  · exact hcommon.elim h.notCommon h.notBss
  · exact hset h.notSet

theorem Strong.not_weak {bss : BitVec 16} {d : SymDef} (h : Strong bss d) :
    stBind d.info ≠ stbWeak := by
  rw [h.bind]
  decide

theorem resolve_undef {bss : BitVec 16} {dynsym : Bool} {old : SymDef}
    (h : old.shndx = shnUndef) (new : SymDef) :
    resolve bss dynsym old new = doPatch new new.other := by
  rw [resolve, if_neg (not_not_intro h)]

/-- The new definition takes the place of one that is not there or yields, and
else the old one stays; a strong one that does not get the place is reported,
except among dynamic symbols. -/
theorem resolve_cases (bss : BitVec 16) (dynsym : Bool) (old new : SymDef) :
    (old.shndx = shnUndef
      ∧ resolve bss dynsym old new = doPatch new new.other)
    ∨ (old.shndx ≠ shnUndef ∧ new.shndx ≠ shnUndef
      ∧ Yields bss dynsym old new
      ∧ resolve bss dynsym old new = doPatch new (propagate old new).other)
    ∨ (old.shndx ≠ shnUndef
      ∧ ∃ twice, resolve bss dynsym old new
        = ⟨propagate old new, false, twice⟩
        ∧ (Strong bss new → Visible new → dynsym = false → twice = true)
        ∧ (dynsym = true → twice = false)) := by
  by_cases hdef : old.shndx = shnUndef
  · exact .inl ⟨hdef, resolve_undef hdef new⟩
  refine .inr ?_
  generalize hr : resolve bss dynsym old new = r
  unfold resolve at hr
  rw [if_pos hdef] at hr
  dsimp only at hr
  split_ifs at hr with hundef hglobal hweak hweaks hhidden hcommon hnew hdyn
    hset
  · exact .inr ⟨hdef, _, hr.symm, fun h => absurd hundef h.defined,
      fun _ => rfl⟩
  · exact .inl ⟨hdef, hundef, .inl hglobal.2, hr.symm⟩
  · exact .inr ⟨hdef, _, hr.symm, fun h => absurd hweak.1 h.not_weak,
      fun _ => rfl⟩
  · exact .inr ⟨hdef, _, hr.symm, fun h => absurd hweaks.1 h.not_weak,
      fun _ => rfl⟩
  · exact .inr ⟨hdef, _, hr.symm,
      fun _ hvis => absurd hhidden (not_or.2 hvis), fun _ => rfl⟩
  · exact .inl ⟨hdef, hundef, .inr (.inl ⟨hcommon.1, hcommon.2.1⟩), hr.symm⟩
  · exact .inr ⟨hdef, _, hr.symm,
      fun h => absurd hnew (not_or.2 ⟨h.notCommon, h.notBss⟩), fun _ => rfl⟩
  · refine .inr ⟨hdef, _, hr.symm, fun _ _ hfalse => ?_, fun _ => rfl⟩
    rw [hfalse] at hdyn
    cases hdyn
  · rw [propagate_asmSet] at hset
    exact .inl ⟨hdef, hundef, .inr (.inr ⟨by simpa using hdyn, hset⟩), hr.symm⟩
  · exact .inr ⟨hdef, _, hr.symm, fun _ _ _ => rfl, fun h => absurd h hdyn⟩

/-- What is kept is as little local as the two definitions. -/
theorem settle_isLocal {bss : BitVec 16} {dynsym : Bool} {old new : SymDef}
    (hold : old.isLocal = false) (hnew : new.isLocal = false) :
    (settle bss dynsym old new).kept.isLocal = false := by
  rw [settle]
  split
  · exact hold
  · rcases resolve_cases bss dynsym old new with
      ⟨-, h⟩ | ⟨-, -, -, h⟩ | ⟨-, _, h, -⟩
    · rw [h, doPatch_kept]
      exact hnew
    · rw [h, doPatch_kept]
      exact hnew
    · rw [h]
      exact hold

/-! ## Visibility -/

/-- How constraining a visibility is. -/
def visibilityRank (d : SymDef) : Nat :=
  if stVisibility d.other = 0 then 0 else 4 - (stVisibility d.other).toNat

theorem visibilityRank_propagate (old new : SymDef) :
    visibilityRank (propagate old new)
      = max (visibilityRank old) (visibilityRank new) := by
  unfold visibilityRank
  rw [stVisibility_propagate]
  rcases stVisibility_cases old.other with h | h | h | h <;>
    rcases stVisibility_cases new.other with h' | h' | h' | h' <;>
    rw [h, h'] <;> decide

/-- A definition stays one, and its visibility is the most constraining of
both. -/
theorem settle_visibility (bss : BitVec 16) (dynsym : Bool) {old : SymDef}
    (hdef : old.shndx ≠ shnUndef) (new : SymDef) :
    (settle bss dynsym old new).kept.shndx ≠ shnUndef
      ∧ visibilityRank (settle bss dynsym old new).kept
        = max (visibilityRank old) (visibilityRank new) := by
  rw [settle]
  split
  · rename_i hsame
    exact ⟨hdef, by rw [hsame, Nat.max_self]⟩
  · have hrank := visibilityRank_propagate old new
    rcases resolve_cases bss dynsym old new with
      ⟨h0, -⟩ | ⟨-, hnew, -, h⟩ | ⟨-, _, h, -⟩
    · exact absurd h0 hdef
    · rw [h, doPatch_kept]
      exact ⟨hnew, hrank⟩
    · rw [h]
      exact ⟨hdef, hrank⟩

/-! ## Strong definitions -/

/-- Two definitions that differ in their visibility at most. -/
structure Agrees (d d' : SymDef) : Prop where
  value : d'.value = d.value
  size : d'.size = d.size
  info : d'.info = d.info
  shndx : d'.shndx = d.shndx

theorem Agrees.refl (d : SymDef) : Agrees d d := ⟨rfl, rfl, rfl, rfl⟩

theorem Agrees.trans {d d' d'' : SymDef} (h : Agrees d d')
    (h' : Agrees d' d'') : Agrees d d'' where
  value := h'.value.trans h.value
  size := h'.size.trans h.size
  info := h'.info.trans h.info
  shndx := h'.shndx.trans h.shndx

theorem Strong.of_agrees {bss : BitVec 16} {d d' : SymDef} (h : Strong bss d)
    (ha : Agrees d d') (hset : d'.other &&& stAsmSet = 0) : Strong bss d' where
  bind := by rw [ha.info, h.bind]
  defined := by rw [ha.shndx]; exact h.defined
  notCommon := by rw [ha.shndx]; exact h.notCommon
  notBss := by rw [ha.shndx]; exact h.notBss
  notSet := hset

/-- A strong definition stays, but for its visibility. -/
theorem settle_strong {bss : BitVec 16} (dynsym : Bool) {old : SymDef}
    (h : Strong bss old) (new : SymDef) :
    Strong bss (settle bss dynsym old new).kept
      ∧ Agrees old (settle bss dynsym old new).kept := by
  rw [settle]
  split
  · exact ⟨h, .refl old⟩
  · rcases resolve_cases bss dynsym old new with
      ⟨h0, -⟩ | ⟨-, -, hyields, -⟩ | ⟨-, _, hkept, -⟩
    · exact absurd h0 h.defined
    · exact absurd hyields h.not_yields
    · have hagrees : Agrees old (propagate old new) := ⟨rfl, rfl, rfl, rfl⟩
      rw [hkept]
      refine ⟨h.of_agrees hagrees ?_, hagrees⟩
      rw [propagate_asmSet, h.notSet]

/-- Outside the dynamic symbols a strong definition is taken, or there is a
message. -/
theorem settle_new_strong {bss : BitVec 16} {old new : SymDef}
    (hset : old.other &&& stAsmSet = 0) (h : Strong bss new)
    (hvisible : Visible new)
    (hquiet : (settle bss false old new).twice = false) :
    Strong bss (settle bss false old new).kept
      ∧ Agrees new (settle bss false old new).kept := by
  rw [settle] at hquiet ⊢
  split
  · rename_i hsame
    subst hsame
    exact ⟨h, .refl old⟩
  rename_i hne
  rw [if_neg hne] at hquiet
  have hpatch : ∀ other, other &&& stAsmSet = 0 →
      Strong bss (doPatch new other).kept
        ∧ Agrees new (doPatch new other).kept := by
    intro other hother
    rw [doPatch_kept]
    have hagrees : Agrees new { new with other := other } :=
      ⟨rfl, rfl, rfl, rfl⟩
    exact ⟨h.of_agrees hagrees hother, hagrees⟩
  have hmerged : (propagate old new).other &&& stAsmSet = 0 := by
    rw [propagate_asmSet, hset]
  rcases resolve_cases bss false old new with
    ⟨-, hkept⟩ | ⟨-, -, -, hkept⟩ | ⟨-, twice, hkept, htwice, -⟩
  · rw [hkept]
    exact hpatch _ h.notSet
  · rw [hkept]
    exact hpatch _ hmerged
  · rw [hkept, htwice h hvisible rfl] at hquiet
    cases hquiet

/-- No definition gets the bit of `.set` from others without it. -/
theorem settle_asmSet {bss : BitVec 16} {dynsym : Bool} {old new : SymDef}
    (hold : old.other &&& stAsmSet = 0) (hnew : new.other &&& stAsmSet = 0) :
    (settle bss dynsym old new).kept.other &&& stAsmSet = 0 := by
  rw [settle]
  split
  · exact hold
  · rcases resolve_cases bss dynsym old new with
      ⟨-, h⟩ | ⟨-, -, -, h⟩ | ⟨-, _, h, -⟩
    · rw [h]
      exact hnew
    · rw [h]
      exact (propagate_asmSet old new).trans hold
    · rw [h]
      exact (propagate_asmSet old new).trans hold

/-! ## Imports -/

/-- Two DLLs may define one symbol. -/
theorem settle_dynsym (bss : BitVec 16) (old new : SymDef) :
    (settle bss true old new).twice = false := by
  rw [settle]
  split
  · rfl
  · rcases resolve_cases bss true old new with
      ⟨-, h⟩ | ⟨-, -, -, h⟩ | ⟨-, _, h, -, htwice⟩
    · rw [h]
      rfl
    · rw [h]
      rfl
    · rw [h]
      exact htwice rfl

theorem importDef_shndx {dll value : BitVec 32} (h : value ≠ 0) :
    (importDef dll value).shndx = shnAbs := by
  rw [importDef, if_pos h]

/-- The first address that is imported stays. -/
theorem settle_import (bss : BitVec 16) (dll value dll' value' : BitVec 32) :
    (settle bss true (importDef dll value) (importDef dll' value')).kept
      = if value ≠ 0 then importDef dll value else importDef dll' value' := by
  have hbind : stBind (importDef dll value).info ≠ stbWeak :=
    show stBind (stInfo stbGlobal sttNotype) ≠ stbWeak by decide
  have hself : propagate (importDef dll value) (importDef dll' value')
      = importDef dll value := by
    simp [propagate, importDef, stVisibility, mergeVisibility, stvDefault]
  rw [settle]
  by_cases hsame : importDef dll value = importDef dll' value'
  · rw [if_pos hsame, hsame, ite_self]
  rw [if_neg hsame]
  rcases resolve_cases bss true (importDef dll value) (importDef dll' value')
    with ⟨h0, hkept⟩ | ⟨-, hnew, hyields, -⟩ | ⟨hdef, _, hkept, -⟩
  · have hvalue : value = 0 := by
      by_contra hne
      rw [importDef_shndx hne] at h0
      exact absurd h0 (by decide)
    rw [hkept, doPatch_kept, if_neg (not_not_intro hvalue)]
  · have habs : (importDef dll' value').shndx = shnAbs := by
      refine importDef_shndx fun h0 => hnew ?_
      rw [importDef, if_neg (not_not_intro h0)]
    rcases hyields with hweak | ⟨-, hlow⟩ | ⟨hfalse, -⟩
    · exact absurd hweak hbind
    · rw [habs] at hlow
      exact absurd hlow (by decide)
    · cases hfalse
  · have hvalue : value ≠ 0 := by
      intro h0
      refine hdef ?_
      rw [importDef, if_neg (not_not_intro h0)]
    rw [hkept, hself, if_pos hvalue]

end Bucktoot.Ports.SymbolTable
