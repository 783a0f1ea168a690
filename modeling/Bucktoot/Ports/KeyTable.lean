import Mathlib.Data.Finset.Card
import Bucktoot.Verified.FirstSlot
import Bucktoot.Verified.StepSystem

/-!
# The key table of `game.c`

The event thread writes the keys that are down into the ten slots of
`key_list`, zero marking a free slot; scripts read the table without a lock
while it does so.  `set_key_down` and `set_key_up` write at most one slot, so
each is one step; `is_key_down` is a step for every slot it reads.

The lemmas about one step say what a later proof needs of it: no key gets
into two slots, a recorded key stays where it is until it is released, and a
press is recorded unless the table is full.
-/

namespace Bucktoot.Ports.KeyTable

open Bucktoot.Verified.FirstSlot
open Bucktoot.Verified.StepSystem

/-! ## The functions -/

/-- `set_key_down`. -/
def setKeyDown (keyList : List Int) (key : Int) : List Int :=
  if key ∈ keyList then keyList
  else fillFirst (fun k => k = 0) key keyList

/-- `set_key_up`. -/
def setKeyUp (keyList : List Int) (key : Int) : List Int :=
  fillFirst (fun k => k = key) 0 keyList

/-- Where a reader stands: outside of `is_key_down`, in front of reading slot
`i` for a key, or back with a result. -/
inductive Scan where
  | idle
  | reading (key : Int) (i : Nat)
  | returned (key : Int) (result : Bool)

/-- The table and the reader. -/
structure Sys where
  keyList : List Int
  scan : Scan

/-- The program starts with a zeroed table. -/
def Sys.init : Sys := { keyList := List.replicate 10 0, scan := .idle }

/-- What can happen next: a key event, a call of `is_key_down`, or the next
read of the call that is under way. -/
inductive Action where
  | down (key : Int)
  | up (key : Int)
  | call (key : Int)
  | read
  deriving DecidableEq

/-- The loop of `is_key_down` reads one slot. -/
def readSlot (s : Sys) (key : Int) (i : Nat) : Sys :=
  if s.keyList[i]? = some key then { s with scan := .returned key true }
  else if i + 1 < s.keyList.length then { s with scan := .reading key (i + 1) }
  else { s with scan := .returned key false }

/-- One step.  The codes of key events are not zero; a reader may ask for
anything. -/
def step (s : Sys) : Action → Option Sys
  | .down key =>
      if key = 0 then none
      else some { s with keyList := setKeyDown s.keyList key }
  | .up key =>
      if key = 0 then none
      else some { s with keyList := setKeyUp s.keyList key }
  | .call key =>
      match s.scan with
      | .reading _ _ => none
      | _ => some { s with scan := .reading key 0 }
  | .read =>
      match s.scan with
      | .reading key i => some (readSlot s key i)
      | _ => none

/-! ## The table by itself -/

/-- No key is in two slots. -/
def Distinct (keyList : List Int) : Prop :=
  ∀ (i j : Nat) (k : Int), k ≠ 0 → keyList[i]? = some k → keyList[j]? = some k →
    i = j

theorem setKeyDown_slot {keyList : List Int} {key k : Int} {j : Nat}
    (h : (setKeyDown keyList key)[j]? = some k) :
    (k = key ∧ key ∉ keyList) ∨ keyList[j]? = some k := by
  unfold setKeyDown at h
  split at h
  · exact .inr h
  · rename_i hnew
    rcases fillFirst_slot h with ⟨-, rfl⟩ | hsame
    · exact .inl ⟨rfl, hnew⟩
    · exact .inr hsame

theorem setKeyDown_keeps {keyList : List Int} {k : Int} {j : Nat} (key : Int)
    (h : keyList[j]? = some k) (hk : k ≠ 0) :
    (setKeyDown keyList key)[j]? = some k := by
  unfold setKeyDown
  split
  · exact h
  · exact fillFirst_keeps key h hk

theorem setKeyUp_slot {keyList : List Int} {key k : Int} {j : Nat}
    (hdistinct : Distinct keyList) (hk : k ≠ 0)
    (h : (setKeyUp keyList key)[j]? = some k) :
    keyList[j]? = some k ∧ k ≠ key := by
  rcases fillFirst_slot h with ⟨-, hzero⟩ | hsame
  · exact absurd hzero hk
  · refine ⟨hsame, ?_⟩
    rintro rfl
    -- the key is in this slot only, so this is the slot that was cleared
    rcases full_or_isFirst (fun x => x = k) keyList with hfull | ⟨i, hi⟩
    · exact hfull j k hsame rfl
    · obtain ⟨⟨_, hat, rfl⟩, -⟩ := id hi
      obtain rfl := hdistinct i j _ hk hat hsame
      rw [setKeyUp, fillFirst_of_isFirst 0 hi,
        List.getElem?_set_self hi.lt_length] at h
      exact hk (Option.some.inj h).symm

theorem setKeyUp_keeps {keyList : List Int} {key k : Int} {j : Nat}
    (h : keyList[j]? = some k) (hk : k ≠ key) :
    (setKeyUp keyList key)[j]? = some k :=
  fillFirst_keeps 0 h hk

theorem setKeyDown_length (keyList : List Int) (key : Int) :
    (setKeyDown keyList key).length = keyList.length := by
  unfold setKeyDown
  split
  · rfl
  · exact length_fillFirst _ _

theorem setKeyUp_length (keyList : List Int) (key : Int) :
    (setKeyUp keyList key).length = keyList.length :=
  length_fillFirst _ _

theorem setKeyDown_distinct {keyList : List Int} {key : Int}
    (h : Distinct keyList) : Distinct (setKeyDown keyList key) := by
  unfold setKeyDown
  split
  · exact h
  · rename_i hnew
    intro i j k hk hi hj
    rcases fillFirst_slot hi with ⟨hfirst, hkey⟩ | hi'
    · rcases fillFirst_slot hj with ⟨hfirst', -⟩ | hj'
      · exact hfirst.unique hfirst'
      · exact absurd (hkey ▸ List.mem_of_getElem? hj') hnew
    · rcases fillFirst_slot hj with ⟨-, hkey⟩ | hj'
      · exact absurd (hkey ▸ List.mem_of_getElem? hi') hnew
      · exact h i j k hk hi' hj'

theorem setKeyUp_distinct {keyList : List Int} {key : Int}
    (h : Distinct keyList) : Distinct (setKeyUp keyList key) := by
  intro i j k hk hi hj
  exact h i j k hk (setKeyUp_slot h hk hi).1 (setKeyUp_slot h hk hj).1

/-- A press is recorded unless the table is full of other keys. -/
theorem mem_setKeyDown {keyList : List Int} {key : Int}
    (h : ¬ Full (fun k : Int => k = 0) keyList) :
    key ∈ setKeyDown keyList key := by
  unfold setKeyDown
  split
  · assumption
  · obtain ⟨j, hj⟩ := exists_fillFirst key h
    exact List.mem_of_getElem? hj

/-- The keys of a full table are as many as it has slots. -/
theorem full_card {keyList : List Int} (h : Distinct keyList)
    (hfull : Full (fun k : Int => k = 0) keyList) :
    keyList.toFinset.card = keyList.length := by
  refine List.toFinset_card_of_nodup (List.nodup_iff_injective_get.2 ?_)
  intro i j hij
  have hi : keyList[i.val]? = some (keyList.get i) := by simp
  have hj : keyList[j.val]? = some (keyList.get i) := by
    rw [hij]
    simp
  exact Fin.ext (h i j _ (hfull i _ hi) hi hj)

/-! ## One step -/

@[simp] theorem readSlot_keyList (s : Sys) (key : Int) (i : Nat) :
    (readSlot s key i).keyList = s.keyList := by
  unfold readSlot
  split
  · rfl
  · split <;> rfl

/-- What the read of a slot makes of the reader: the key is there, or it is
not and there is another slot to read, or it is not and this was the last
one. -/
theorem readSlot_scan (s : Sys) (key : Int) (i : Nat) :
    (s.keyList[i]? = some key ∧
      (readSlot s key i).scan = .returned key true) ∨
    (s.keyList[i]? ≠ some key ∧ i + 1 < s.keyList.length ∧
      (readSlot s key i).scan = .reading key (i + 1)) ∨
    (s.keyList[i]? ≠ some key ∧ s.keyList.length ≤ i + 1 ∧
      (readSlot s key i).scan = .returned key false) := by
  unfold readSlot
  by_cases hhit : s.keyList[i]? = some key
  · rw [if_pos hhit]
    exact .inl ⟨hhit, rfl⟩
  · rw [if_neg hhit]
    by_cases hmore : i + 1 < s.keyList.length
    · rw [if_pos hmore]
      exact .inr (.inl ⟨hhit, hmore, rfl⟩)
    · rw [if_neg hmore]
      exact .inr (.inr ⟨hhit, Nat.le_of_not_lt hmore, rfl⟩)

/-- What a step can be. -/
theorem step_cases {s s' : Sys} {a : Action} (h : step s a = some s') :
    (∃ key, a = .down key ∧ key ≠ 0 ∧
      s' = { s with keyList := setKeyDown s.keyList key }) ∨
    (∃ key, a = .up key ∧ key ≠ 0 ∧
      s' = { s with keyList := setKeyUp s.keyList key }) ∨
    (∃ key, a = .call key ∧ (∀ k i, s.scan ≠ .reading k i) ∧
      s' = { s with scan := .reading key 0 }) ∨
    (∃ key i, a = .read ∧ s.scan = .reading key i ∧ s' = readSlot s key i) := by
  cases a with
  | down key =>
      simp only [step] at h
      split at h
      · cases h
      · rename_i hkey
        exact .inl ⟨key, rfl, hkey, (Option.some.inj h).symm⟩
  | up key =>
      simp only [step] at h
      split at h
      · cases h
      · rename_i hkey
        exact .inr (.inl ⟨key, rfl, hkey, (Option.some.inj h).symm⟩)
  | call key =>
      simp only [step] at h
      split at h
      · cases h
      · rename_i hscan
        exact .inr (.inr (.inl ⟨key, rfl, hscan, (Option.some.inj h).symm⟩))
  | read =>
      simp only [step] at h
      split at h
      · rename_i key i hscan
        exact .inr (.inr (.inr ⟨key, i, rfl, hscan, (Option.some.inj h).symm⟩))
      · cases h

theorem step_distinct {s s' : Sys} {a : Action} (hd : Distinct s.keyList)
    (h : step s a = some s') : Distinct s'.keyList := by
  obtain ⟨key, -, -, rfl⟩ | ⟨key, -, -, rfl⟩ | ⟨key, -, -, rfl⟩ |
    ⟨key, i, -, -, rfl⟩ := step_cases h
  · exact setKeyDown_distinct hd
  · exact setKeyUp_distinct hd
  · exact hd
  · rw [readSlot_keyList]
    exact hd

theorem step_length {s s' : Sys} {a : Action} (h : step s a = some s') :
    s'.keyList.length = s.keyList.length := by
  obtain ⟨key, -, -, rfl⟩ | ⟨key, -, -, rfl⟩ | ⟨key, -, -, rfl⟩ |
    ⟨key, i, -, -, rfl⟩ := step_cases h
  · exact setKeyDown_length _ _
  · exact setKeyUp_length _ _
  · rfl
  · rw [readSlot_keyList]

/-- A key in the table has just been pressed, or was in the same slot before
and has not been released. -/
theorem step_slot {s s' : Sys} {a : Action} (hd : Distinct s.keyList)
    (h : step s a = some s') {j : Nat} {k : Int} (hk : k ≠ 0)
    (hj : s'.keyList[j]? = some k) :
    a = .down k ∨ (s.keyList[j]? = some k ∧ a ≠ .up k) := by
  obtain ⟨key, rfl, -, rfl⟩ | ⟨key, rfl, -, rfl⟩ | ⟨key, rfl, -, rfl⟩ |
    ⟨key, i, rfl, -, rfl⟩ := step_cases h
  · rcases setKeyDown_slot hj with ⟨rfl, -⟩ | hsame
    · exact .inl rfl
    · exact .inr ⟨hsame, Action.noConfusion⟩
  · obtain ⟨hsame, hne⟩ := setKeyUp_slot hd hk hj
    exact .inr ⟨hsame, fun heq => hne (Action.up.inj heq).symm⟩
  · exact .inr ⟨hj, Action.noConfusion⟩
  · rw [readSlot_keyList] at hj
    exact .inr ⟨hj, Action.noConfusion⟩

/-- A recorded key stays in its slot unless it is released. -/
theorem step_keeps {s s' : Sys} {a : Action} (h : step s a = some s')
    {j : Nat} {k : Int} (hk : k ≠ 0) (hj : s.keyList[j]? = some k)
    (hup : a ≠ .up k) : s'.keyList[j]? = some k := by
  obtain ⟨key, rfl, -, rfl⟩ | ⟨key, rfl, -, rfl⟩ | ⟨key, rfl, -, rfl⟩ |
    ⟨key, i, rfl, -, rfl⟩ := step_cases h
  · exact setKeyDown_keeps key hj hk
  · exact setKeyUp_keeps hj (fun heq => hup (by rw [heq]))
  · exact hj
  · rw [readSlot_keyList]
    exact hj

/-- While a call is under way it is the only one, and only reads move it on. -/
theorem step_scan {s s' : Sys} {a : Action} (h : step s a = some s')
    {k : Int} {i : Nat} (hs : s.scan = .reading k i) :
    (a ≠ .read ∧ s'.scan = .reading k i) ∨
      (a = .read ∧ s' = readSlot s k i) := by
  obtain ⟨key, rfl, -, rfl⟩ | ⟨key, rfl, -, rfl⟩ | ⟨key, -, hidle, -⟩ |
    ⟨key, j, rfl, hscan, rfl⟩ := step_cases h
  · exact .inl ⟨Action.noConfusion, hs⟩
  · exact .inl ⟨Action.noConfusion, hs⟩
  · exact absurd hs (hidle k i)
  · rw [hs] at hscan
    obtain ⟨rfl, rfl⟩ := Scan.reading.inj hscan
    exact .inr ⟨rfl, rfl⟩

end Bucktoot.Ports.KeyTable
