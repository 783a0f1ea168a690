import Bucktoot.Ports.KeyTableRuns
import Bucktoot.Ports.MovePlayer

/-!
# The player script on the live key table

`move_player1` asks `is_key_down` for one key after the other while the event
thread goes on writing to `key_list`.  Here a call of the script is therefore
not one step: every slot it reads is one, and key events come in between.

* `Sys`, `step` — the event thread and the script on one table;
* `Underway` — what a call that is under way has seen so far;
* `script_refines` — the player is what the finished calls make of it when
  each of them is taken as one step, with answers that are true of the time
  the call took and the clock as it was read at its end.
-/

namespace Bucktoot.Ports.LiveKeys

open Bucktoot.Verified.StepSystem
open Bucktoot.Ports.Entities
open Bucktoot.Ports.KeyTable (setKeyDown setKeyUp)
open Bucktoot.Ports.MovePlayer

/-! ## The system -/

/-- Where the script stands: outside of `move_player1`, or in `is_key_down`
for a key, in front of reading slot `i`. -/
inductive Pc where
  | outside
  | asking (key : Key) (i : Nat)

/-- The key table, the player and the script. -/
structure Sys where
  keyList : List Int
  player : Entity
  pc : Pc

def Sys.init (player : Entity) : Sys :=
  { keyList := List.replicate 10 0, player := player, pc := .outside }

/-- What can happen next: a key event, a call of `move_player1`, or the next
read of the call that is under way; `tick` is the clock in case the call comes
to `run_animation` behind this read. -/
inductive Action where
  | down (key : Int)
  | up (key : Int)
  | call
  | read (tick : Int64)

/-- `move_player1` up to its first question. -/
def enter (s : Sys) : Sys :=
  { s with
    player := sized s.player
    pc := match s.player.state with
      | .idle | .run => .asking .right 0
      | .jump | .fall | .dead => .outside }

/-- `move_player1` outside again, with the player it leaves. -/
def leave (s : Sys) (player : Entity) : Sys :=
  { s with player := player, pc := .outside }

/-- `move_player1` behind the answer of `is_key_down` for a key. -/
def resume (s : Sys) (tick : Int64) : Key → Bool → Sys
  | .right, true =>
      leave s (runAnimation { s.player with state := .run } tick false)
  | .right, false => { s with pc := .asking .left 0 }
  | .left, true =>
      leave s (runAnimation { s.player with state := .run } tick true)
  | .left, false =>
      match s.player.state with
      | .idle => { s with pc := .asking .z 0 }
      | _ => leave s (playerIdle { s.player with state := .idle })
  | .z, true => leave s { s.player with state := .jump }
  | .z, false => leave s (playerIdle s.player)

/-- One step.  `code` gives the codes of the keys. -/
def step (code : Key → Int) (s : Sys) : Action → Option Sys
  | .down key =>
      if key = 0 then none
      else some { s with keyList := setKeyDown s.keyList key }
  | .up key =>
      if key = 0 then none
      else some { s with keyList := setKeyUp s.keyList key }
  | .call =>
      match s.pc with
      | .outside => some (enter s)
      | .asking _ _ => none
  | .read tick =>
      match s.pc with
      | .outside => none
      | .asking key i =>
          if s.keyList[i]? = some (code key) then some (resume s tick key true)
          else if i + 1 < s.keyList.length then
            some { s with pc := .asking key (i + 1) }
          else some (resume s tick key false)

/-! ## One step -/

section Steps

variable {code : Key → Int} {s s' : Sys}

@[simp] theorem enter_keyList (s : Sys) : (enter s).keyList = s.keyList := rfl

@[simp] theorem resume_keyList (s : Sys) (tick : Int64) (key : Key)
    (last : Bool) : (resume s tick key last).keyList = s.keyList := by
  unfold resume
  split
  case h_4 => split <;> rfl
  all_goals rfl

/-- A step, case by case. -/
inductive Stepped (code : Key → Int) (s : Sys) : Action → Sys → Prop where
  | down (key : Int) (hkey : key ≠ 0) :
      Stepped code s (.down key)
        { s with keyList := setKeyDown s.keyList key }
  | up (key : Int) (hkey : key ≠ 0) :
      Stepped code s (.up key) { s with keyList := setKeyUp s.keyList key }
  | call (hpc : s.pc = .outside) : Stepped code s .call (enter s)
  | hit (tick : Int64) (key : Key) (i : Nat) (hpc : s.pc = .asking key i)
      (hslot : s.keyList[i]? = some (code key)) :
      Stepped code s (.read tick) (resume s tick key true)
  | next (tick : Int64) (key : Key) (i : Nat) (hpc : s.pc = .asking key i)
      (hslot : s.keyList[i]? ≠ some (code key)) :
      Stepped code s (.read tick) { s with pc := .asking key (i + 1) }
  | miss (tick : Int64) (key : Key) (i : Nat) (hpc : s.pc = .asking key i)
      (hslot : s.keyList[i]? ≠ some (code key))
      (hend : s.keyList.length ≤ i + 1) :
      Stepped code s (.read tick) (resume s tick key false)

theorem stepped {a : Action} (h : step code s a = some s') :
    Stepped code s a s' := by
  cases a with
  | down key =>
      simp only [step] at h
      split at h
      · cases h
      · rename_i hkey
        cases h
        exact .down key hkey
  | up key =>
      simp only [step] at h
      split at h
      · cases h
      · rename_i hkey
        cases h
        exact .up key hkey
  | call =>
      simp only [step] at h
      split at h
      · rename_i hpc
        cases h
        exact .call hpc
      · cases h
  | read tick =>
      simp only [step] at h
      split at h
      · cases h
      · rename_i key i hpc
        split at h
        · rename_i hslot
          cases h
          exact .hit tick key i hpc hslot
        · rename_i hslot
          split at h
          · cases h
            exact .next tick key i hpc hslot
          · rename_i hend
            cases h
            exact .miss tick key i hpc hslot (Nat.le_of_not_lt hend)

end Steps

/-! ## Calls taken as one step -/

section Calls

variable {code : Key → Int} {p : Entity} (r : Run (step code) (Sys.init p))

/-- The latest event of the key before moment `n` is a press. -/
def Held (n : Nat) (key : Int) : Prop :=
  ∃ t < n, r.act t = .down key ∧ ∀ m, t < m → m < n → r.act m ≠ .up key

/-- A call of the script that went from moment `start` to moment `stop`, as
one step. -/
structure Finished where
  start : Nat
  stop : Nat
  call : Call

/-- With at most ten keys held at every moment of the run. -/
def AtMostTen : Prop :=
  ∀ n ≤ r.len, ∀ keys : Finset Int, (∀ k ∈ keys, Held r n k) → keys.card ≤ 10

/-- The answers of the call are true of the time it took. -/
structure Answers (f : Finished) : Prop where
  later : f.start < f.stop
  inRun : f.stop ≤ r.len
  call : r.act f.start = .call
  /-- A key that is reported was held at some moment of the call. -/
  found : ∀ key, f.call.isKeyDown key = true →
    ∃ t, f.start ≤ t ∧ t ≤ f.stop ∧ Held r t (code key)
  /-- With at most ten keys held, one that is held at every moment of the call
  is reported. -/
  finds : AtMostTen r → ∀ key,
    (∀ t, f.start ≤ t → t ≤ f.stop → Held r t (code key)) →
    f.call.isKeyDown key = true
  /-- The clock is the one read in the step in which the call ends, unless it
  ends at once. -/
  clock : f.stop = f.start + 1 ∨ r.act (f.stop - 1) = .read f.call.tick

/-- The script is outside at moment `n`, and the player is what the calls it
has finished make of it one after the other. -/
structure History (cs : List Finished) (n : Nat) : Prop where
  outside : (r.state n).pc = .outside
  player : (r.state n).player =
    cs.foldl (fun e f => movePlayer1 f.call e) p
  answers : ∀ f ∈ cs, Answers r f ∧ f.stop ≤ n
  ordered : cs.Pairwise (fun f g => f.stop ≤ g.start)
  complete : ∀ t < n, r.act t = .call → ∃ f ∈ cs, f.start = t

end Calls

/-! ## The table -/

section Table

variable {code : Key → Int} {p : Entity} {r : Run (step code) (Sys.init p)}

/-- What a step does to the table.  Where it does nothing, some reader of the
table makes a step. -/
def tableAct (u : KeyTable.Sys) : Action → KeyTable.Action
  | .down key => .down key
  | .up key => .up key
  | .call | .read _ =>
      match u.scan with
      | .reading _ _ => .read
      | _ => .call 1

theorem tableAct_eq_down {u : KeyTable.Sys} {a : Action} {key : Int} :
    tableAct u a = .down key ↔ a = .down key := by
  cases a with
  | down k => simp [tableAct]
  | up k => simp [tableAct]
  | call | read =>
      simp only [tableAct, reduceCtorEq, iff_false]
      split <;> exact KeyTable.Action.noConfusion

theorem tableAct_eq_up {u : KeyTable.Sys} {a : Action} {key : Int} :
    tableAct u a = .up key ↔ a = .up key := by
  cases a with
  | down k => simp [tableAct]
  | up k => simp [tableAct]
  | call | read =>
      simp only [tableAct, reduceCtorEq, iff_false]
      split <;> exact KeyTable.Action.noConfusion

/-- The table makes this step. -/
theorem tableAct_step {s s' : Sys} {a : Action} (h : step code s a = some s')
    {u : KeyTable.Sys} (hu : u.keyList = s.keyList) :
    ∃ u', KeyTable.step u (tableAct u a) = some u' ∧
      u'.keyList = s'.keyList := by
  have hread : ∃ u', KeyTable.step u (tableAct u .call) = some u' ∧
      u'.keyList = u.keyList := by
    cases hscan : u.scan with
    | reading key i =>
        refine ⟨KeyTable.readSlot u key i, ?_, KeyTable.readSlot_keyList u key i⟩
        simp [tableAct, KeyTable.step, hscan]
    | idle | returned =>
        exact ⟨{ u with scan := .reading 1 0 },
          by simp [tableAct, KeyTable.step, hscan], rfl⟩
  cases stepped h with
  | down key hkey =>
      exact ⟨_, if_neg hkey, congrArg (setKeyDown · key) hu⟩
  | up key hkey =>
      exact ⟨_, if_neg hkey, congrArg (setKeyUp · key) hu⟩
  | call | hit | next | miss =>
      obtain ⟨u', hstep, hsame⟩ := hread
      refine ⟨u', hstep, ?_⟩
      simp [hsame, hu]

/-- The table along the run, with the reader that goes with it. -/
def follow (r : Run (step code) (Sys.init p)) : Nat → KeyTable.Sys
  | 0 => .init
  | n + 1 =>
      (KeyTable.step (follow r n) (tableAct (follow r n) (r.act n))).getD
        (follow r n)

theorem follow_keyList {n : Nat} (hn : n ≤ r.len) :
    (follow r n).keyList = (r.state n).keyList := by
  induction n with
  | zero =>
      rw [r.start]
      rfl
  | succ n ih =>
      obtain ⟨u', hstep, hsame⟩ :=
        tableAct_step (r.next n hn) (ih (Nat.le_of_succ_le hn))
      rw [follow, hstep]
      exact hsame

variable (r) in
/-- The run of the table by itself. -/
def tableRun : Run KeyTable.step KeyTable.Sys.init where
  len := r.len
  state := follow r
  act n := tableAct (follow r n) (r.act n)
  start := rfl
  next := by
    intro n hn
    obtain ⟨u', hstep, -⟩ :=
      tableAct_step (r.next n hn) (follow_keyList (Nat.le_of_lt hn))
    rw [follow, hstep]
    rfl

theorem held_tableRun_iff {n : Nat} {key : Int} :
    KeyTable.Held (tableRun r) n key ↔ Held r n key := by
  simp only [KeyTable.Held, Held, tableRun, tableAct_eq_down, ne_eq,
    tableAct_eq_up]

/-- What is in the table is held. -/
theorem held_of_slot {n : Nat} (hn : n ≤ r.len) {j : Nat} {key : Int}
    (hkey : key ≠ 0) (hj : (r.state n).keyList[j]? = some key) :
    Held r n key := by
  rw [← follow_keyList hn] at hj
  exact held_tableRun_iff.1 (KeyTable.held_of_recorded (r := tableRun r) hn hkey hj)

/-- A key that is held from `m` to `n` stays in one slot all the time. -/
theorem exists_slot_of_held (hten : AtMostTen r) {m n : Nat} (hmn : m ≤ n)
    (hn : n ≤ r.len) {key : Int}
    (hheld : ∀ t, m ≤ t → t ≤ n → Held r t key) :
    ∃ j < 10, ∀ t, m ≤ t → t ≤ n → (r.state t).keyList[j]? = some key := by
  have hten' : ∀ t ≤ (tableRun r).len, ∀ keys : Finset Int,
      (∀ k ∈ keys, KeyTable.Held (tableRun r) t k) → keys.card ≤ 10 := by
    simp only [held_tableRun_iff]
    exact hten
  have hfirst := held_tableRun_iff.2 (hheld m (Nat.le_refl m) hmn)
  have hm : m ≤ (tableRun r).len := Nat.le_trans hmn hn
  have hkey := hfirst.ne_zero hm
  obtain ⟨j, hj⟩ := KeyTable.recorded_of_held hten' hm hfirst
  refine ⟨j, ?_, ?_⟩
  · rw [← KeyTable.run_length hm]
    exact (List.getElem?_eq_some_iff.1 hj).1
  · intro t hmt htn
    have ht : t ≤ r.len := Nat.le_trans htn hn
    rw [← follow_keyList ht]
    exact KeyTable.recorded_stays (r := tableRun r) hmt ht hkey hj
      (fun u h1 h2 => held_tableRun_iff.2
        (hheld u (Nat.le_of_lt h1) (Nat.le_trans h2 htn)))

end Table

/-! ## A call that is under way -/

/-- The order in which `move_player1` asks. -/
def rank : Key → Nat
  | .right => 0
  | .left => 1
  | .z => 2

theorem sized_state (e : Entity) : (sized e).state = e.state := rfl

/-- A call that has come to its end behind an answer, as one step. -/
theorem resume_player {s : Sys} {e : Entity} {tick : Int64} {key : Key}
    {last : Bool} {c : Call} (hplayer : s.player = sized e)
    (hstate : e.state = .idle ∨ e.state = .run ∧ key ≠ .z)
    (hout : (resume s tick key last).pc = .outside) (htick : c.tick = tick)
    (hlast : c.isKeyDown key = last)
    (hbefore : ∀ k, rank k < rank key → c.isKeyDown k = false) :
    (resume s tick key last).player = movePlayer1 c e := by
  have hright : key ≠ .right → c.isKeyDown .right = false := by
    intro hne
    apply hbefore
    cases key with
    | right => exact absurd rfl hne
    | left | z => decide
  subst htick
  cases key with
  | right =>
      cases last with
      | true =>
          obtain hidle | ⟨hrun, -⟩ := hstate
          · simp [resume, leave, movePlayer1, sized_state, hidle, hlast, hplayer]
          · simp [resume, leave, movePlayer1, sized_state, hrun, hlast, hplayer]
      | false => cases hout
  | left =>
      have hr := hright (by decide)
      cases last with
      | true =>
          obtain hidle | ⟨hrun, -⟩ := hstate
          · simp [resume, leave, movePlayer1, sized_state, hidle, hlast, hr, hplayer]
          · simp [resume, leave, movePlayer1, sized_state, hrun, hlast, hr, hplayer]
      | false =>
          obtain hidle | ⟨hrun, -⟩ := hstate
          · have hs : s.player.state = .idle := by rw [hplayer]; exact hidle
            simp [resume, hs] at hout
          · simp [resume, leave, movePlayer1, sized_state, hrun, hlast, hr, hplayer]
  | z =>
      have hr := hright (by decide)
      have hl := hbefore .left (by decide)
      obtain hidle | ⟨-, hne⟩ := hstate
      · cases last with
        | true | false =>
            simp [resume, leave, movePlayer1, sized_state, hidle, hlast, hr, hl,
              hplayer]
      · exact absurd rfl hne

/-- Where the call goes on behind an answer. -/
theorem resume_asking {s : Sys} {tick : Int64} {key : Key} {last : Bool}
    (hout : (resume s tick key last).pc ≠ .outside) :
    ∃ key', resume s tick key last = { s with pc := .asking key' 0 } ∧
      last = false ∧ rank key' = rank key + 1 ∧
      (key' = .z → s.player.state = .idle) := by
  cases key with
  | right =>
      cases last with
      | true => exact absurd rfl hout
      | false => exact ⟨.left, rfl, rfl, rfl, nofun⟩
  | left =>
      cases last with
      | true => exact absurd rfl hout
      | false =>
          cases hs : s.player.state with
          | idle => exact ⟨.z, by simp [resume, hs], rfl, rfl, fun _ => rfl⟩
          | run | jump | fall | dead =>
              exact absurd (by simp [resume, hs, leave]) hout
  | z =>
      cases last with
      | true => exact absurd rfl hout
      | false => exact absurd rfl hout

section Underway

variable {code : Key → Int} {p : Entity} (r : Run (step code) (Sys.init p))

/-- At some moment from `b` to `n` slot `j` did not hold the key. -/
def Missed (b n : Nat) (key : Key) (j : Nat) : Prop :=
  ∃ t, b ≤ t ∧ t ≤ n ∧ (r.state t).keyList[j]? ≠ some (code key)

/-- At moment `n` the call that began at moment `b` is in front of reading slot
`i` for a key. -/
structure Underway (b n : Nat) (key : Key) (i : Nat) : Prop where
  later : b < n
  call : r.act b = .call
  alone : ∀ t, b < t → t < n → r.act t ≠ .call
  pc : (r.state n).pc = .asking key i
  player : (r.state n).player = sized (r.state b).player
  asks : (r.state b).player.state = .idle ∨
    (r.state b).player.state = .run ∧ key ≠ .z
  missed : ∀ j < i, Missed r b n key j
  earlier : ∀ k, rank k < rank key → ∀ j < 10, Missed r b n k j

open Classical in
/-- Whether a key was held at some moment from `b` to `n`. -/
noncomputable def heldOnce (b n : Nat) (key : Key) : Bool :=
  decide (∃ t, b ≤ t ∧ t ≤ n ∧ Held r t (code key))

/-- The answers of the call, as one step: for the keys it did not come to,
whether they were held at some moment. -/
noncomputable def seen (b n : Nat) (key : Key) (last : Bool) (k : Key) :
    Bool :=
  if rank k < rank key then false
  else if k = key then last
  else heldOnce r b n k

variable {r} {b n i : Nat} {key : Key}

theorem heldOnce_iff : heldOnce r b n key = true ↔
    ∃ t, b ≤ t ∧ t ≤ n ∧ Held r t (code key) := by
  simp [heldOnce]

theorem Missed.mono {m : Nat} (h : Missed r b n key i) (hnm : n ≤ m) :
    Missed r b m key i := by
  obtain ⟨t, hbt, htn, hslot⟩ := h
  exact ⟨t, hbt, Nat.le_trans htn hnm, hslot⟩

/-- A key that was missed in every slot was not held all the time. -/
theorem exists_not_held (hten : AtMostTen r) (hn : n ≤ r.len) (hbn : b ≤ n)
    (hmissed : ∀ j < 10, Missed r b n key j) :
    ∃ t, b ≤ t ∧ t ≤ n ∧ ¬ Held r t (code key) := by
  by_contra hall
  push Not at hall
  obtain ⟨j, hj, hslot⟩ := exists_slot_of_held hten hbn hn hall
  obtain ⟨t, hbt, htn, hne⟩ := hmissed j hj
  exact hne (hslot t hbt htn)

/-- The call has come to its end. -/
theorem Underway.answers (h : Underway r b n key i) (hn : n < r.len)
    {last : Bool} {tick : Int64} (hact : r.act n = .read tick)
    (hfound : last = true → Held r n (code key))
    (hmissed : last = false → ∀ j < 10, Missed r b (n + 1) key j) :
    Answers r ⟨b, n + 1, seen r b (n + 1) key last, tick⟩ where
  later := Nat.lt_succ_of_lt h.later
  inRun := hn
  call := h.call
  found := by
    intro k hk
    simp only [seen] at hk
    split at hk
    · cases hk
    · split at hk
      · rename_i hkey
        subst hkey
        exact ⟨n, Nat.le_of_lt h.later, Nat.le_succ n, hfound hk⟩
      · exact heldOnce_iff.1 hk
  finds := by
    intro hten k hheld
    have hbn : b ≤ n + 1 := Nat.le_of_lt (Nat.lt_succ_of_lt h.later)
    have hnot : ¬ ∀ j < 10, Missed r b (n + 1) k j := by
      intro hall
      obtain ⟨t, hbt, htn, hne⟩ := exists_not_held hten hn hbn hall
      exact hne (hheld t hbt htn)
    simp only [seen]
    split
    · rename_i hrank
      exact absurd (fun j hj => (h.earlier k hrank j hj).mono (Nat.le_succ n)) hnot
    · split
      · rename_i hkey
        subst hkey
        cases last with
        | true => rfl
        | false => exact absurd (hmissed rfl) hnot
      · have hb := hheld b (Nat.le_refl b) hbn
        exact heldOnce_iff.2 ⟨b, Nat.le_refl b, hbn, hb⟩
  clock := .inr hact

/-- The answers to the questions that were asked. -/
theorem seen_before {k : Key} {last : Bool} (h : rank k < rank key) :
    seen r b n key last k = false :=
  if_pos h

theorem seen_last {last : Bool} : seen r b n key last key = last := by
  rw [seen, if_neg (Nat.lt_irrefl _), if_pos rfl]

/-! ## One moment after the other -/

/-- Nothing the player can see has happened. -/
theorem History.keep {cs : List Finished} (h : History r cs n)
    (hact : r.act n ≠ .call)
    (hpc : (r.state (n + 1)).pc = (r.state n).pc)
    (hplayer : (r.state (n + 1)).player = (r.state n).player) :
    History r cs (n + 1) where
  outside := hpc.trans h.outside
  player := hplayer.trans h.player
  answers := by
    intro f hf
    obtain ⟨hanswers, hstop⟩ := h.answers f hf
    exact ⟨hanswers, Nat.le_succ_of_le hstop⟩
  ordered := h.ordered
  complete := by
    intro t ht hcall
    obtain hlt | rfl := Nat.lt_succ_iff_lt_or_eq.1 ht
    · exact h.complete t hlt hcall
    · exact absurd hcall hact

/-- One more call has come to its end. -/
theorem History.snoc {cs : List Finished} (h : History r cs b) {f : Finished}
    (hf : Answers r f) (hstart : f.start = b) (hstop : f.stop = n)
    (hpc : (r.state n).pc = .outside)
    (hplayer : (r.state n).player = movePlayer1 f.call (r.state b).player)
    (halone : ∀ t, b < t → t < n → r.act t ≠ .call) :
    History r (cs ++ [f]) n where
  outside := hpc
  player := by
    rw [hplayer, h.player, List.foldl_append]
    rfl
  answers := by
    intro g hg
    rw [List.mem_append, List.mem_singleton] at hg
    cases hg with
    | inl hold =>
        obtain ⟨hanswers, hle⟩ := h.answers g hold
        have hlater := hf.later
        exact ⟨hanswers, by omega⟩
    | inr hnew =>
        subst hnew
        exact ⟨hf, Nat.le_of_eq hstop⟩
  ordered := by
    refine List.pairwise_append.2 ⟨h.ordered, List.pairwise_singleton _ _, ?_⟩
    intro g hg f' hf'
    obtain rfl := List.mem_singleton.1 hf'
    rw [hstart]
    exact (h.answers g hg).2
  complete := by
    intro t ht hcall
    obtain hlt | rfl | hgt := Nat.lt_trichotomy t b
    · obtain ⟨g, hg, hgt⟩ := h.complete t hlt hcall
      exact ⟨g, List.mem_append_left _ hg, hgt⟩
    · exact ⟨f, by simp, hstart⟩
    · exact absurd hcall (halone t hgt ht)

/-- The script is outside, or in a call that began outside. -/
def Accounted (r : Run (step code) (Sys.init p)) (n : Nat) : Prop :=
  (∃ cs, History r cs n) ∨
    ∃ cs b key i, History r cs b ∧ Underway r b n key i

/-- A call begins. -/
theorem accounted_enter {cs : List Finished} (h : History r cs n)
    (hn : n < r.len) (hact : r.act n = .call)
    (hnext : r.state (n + 1) = enter (r.state n)) : Accounted r (n + 1) := by
  have halone : ∀ t, n < t → t < n + 1 → r.act t ≠ .call := by
    intro t hnt htn
    omega
  have hasked (hstate : (r.state n).player.state = .idle ∨
      (r.state n).player.state = .run) : Accounted r (n + 1) := by
    refine .inr ⟨cs, n, .right, 0, h, ?_⟩
    refine ⟨Nat.lt_succ_self n, hact, halone, ?_, by rw [hnext]; rfl, ?_,
      nofun, ?_⟩
    · rw [hnext]
      obtain hidle | hrun := hstate
      · simp [enter, hidle]
      · simp [enter, hrun]
    · exact hstate.imp_right (fun hrun => ⟨hrun, nofun⟩)
    · intro k hk
      exact absurd hk (Nat.not_lt_zero _)
  have hskipped (hpc : (enter (r.state n)).pc = .outside)
      (hplayer : ∀ c, movePlayer1 c (r.state n).player =
        sized (r.state n).player) : Accounted r (n + 1) := by
    refine .inl ⟨cs ++ [⟨n, n + 1, heldOnce r n (n + 1), 0⟩], ?_⟩
    refine h.snoc ?_ rfl rfl (by rw [hnext]; exact hpc) ?_ halone
    · refine ⟨Nat.lt_succ_self n, hn, hact, fun k => heldOnce_iff.1, ?_,
        .inl rfl⟩
      intro _ k hheld
      have hfirst := hheld n (Nat.le_refl n) (Nat.le_succ n)
      exact heldOnce_iff.2 ⟨n, Nat.le_refl n, Nat.le_succ n, hfirst⟩
    · rw [hnext, hplayer]
      rfl
  cases hstate : (r.state n).player.state with
  | idle => exact hasked (.inl hstate)
  | run => exact hasked (.inr hstate)
  | jump | fall | dead =>
      refine hskipped (by simp [enter, hstate]) (fun c => ?_)
      simp [movePlayer1, sized_state, hstate]

/-- The call goes on: with the next slot, or with the first slot for the next
key. -/
theorem Underway.goOn (h : Underway r b n key i) {key' : Key} {i' : Nat}
    (hact : r.act n ≠ .call)
    (hpc : (r.state (n + 1)).pc = .asking key' i')
    (hplayer : (r.state (n + 1)).player = (r.state n).player)
    (hasks : key' = .z → (r.state n).player.state = .idle)
    (hmissed : ∀ j < i', Missed r b (n + 1) key' j)
    (hearlier : ∀ k, rank k < rank key' → ∀ j < 10, Missed r b (n + 1) k j) :
    Underway r b (n + 1) key' i' where
  later := Nat.lt_succ_of_lt h.later
  call := h.call
  alone := by
    intro t hbt htn
    obtain hlt | rfl := Nat.lt_succ_iff_lt_or_eq.1 htn
    · exact h.alone t hbt hlt
    · exact hact
  pc := hpc
  player := hplayer.trans h.player
  asks := by
    rw [h.player, sized_state] at hasks
    obtain hidle | ⟨hrun, -⟩ := h.asks
    · exact .inl hidle
    · refine .inr ⟨hrun, fun hz => ?_⟩
      rw [hrun] at hasks
      exact nomatch hasks hz
  missed := hmissed
  earlier := hearlier

/-- A read ends the question for a key. -/
theorem accounted_resume {cs : List Finished} (hb : History r cs b)
    (h : Underway r b n key i) (hn : n < r.len) {tick : Int64} {last : Bool}
    (hact : r.act n = .read tick)
    (hnext : r.state (n + 1) = resume (r.state n) tick key last)
    (hfound : last = true → Held r n (code key))
    (hmissed : last = false → ∀ j < 10, Missed r b (n + 1) key j) :
    Accounted r (n + 1) := by
  have hcall : r.act n ≠ .call := by
    rw [hact]
    exact nofun
  by_cases hpc : (resume (r.state n) tick key last).pc = .outside
  · have hanswers : Answers r ⟨b, n + 1, seen r b (n + 1) key last, tick⟩ :=
      h.answers hn hact hfound hmissed
    refine .inl ⟨_, hb.snoc hanswers rfl rfl (by rw [hnext]; exact hpc) ?_ ?_⟩
    · rw [hnext]
      exact resume_player h.player h.asks hpc rfl seen_last
        (fun k hk => seen_before hk)
    · intro t hbt htn
      obtain hlt | rfl := Nat.lt_succ_iff_lt_or_eq.1 htn
      · exact h.alone t hbt hlt
      · exact hcall
  · obtain ⟨key', heq, hlast, hrank, hidle⟩ := resume_asking hpc
    refine .inr ⟨cs, b, key', 0, hb, h.goOn hcall (by rw [hnext, heq])
      (by rw [hnext, heq]) hidle nofun ?_⟩
    intro k hk j hj
    rw [hrank] at hk
    obtain hlt | hsame := Nat.lt_succ_iff_lt_or_eq.1 hk
    · exact (h.earlier k hlt j hj).mono (Nat.le_succ n)
    · obtain rfl : k = key := by
        cases k <;> cases key <;> first | rfl | cases hsame
      exact hmissed hlast j hj

/-- Every moment of a run. -/
theorem accounted (hcode : ∀ k, code k ≠ 0) (hn : n ≤ r.len) :
    Accounted r n := by
  induction n with
  | zero =>
      refine .inl ⟨[], ?_, ?_, nofun, .nil, nofun⟩
      · rw [r.start]
        rfl
      · rw [r.start]
        rfl
  | succ n ih =>
      have hle := Nat.le_of_succ_le hn
      have hlength : (r.state n).keyList.length = 10 := by
        rw [← follow_keyList hle]
        exact KeyTable.run_length (r := tableRun r) hle
      have hnext := r.next n hn
      generalize hact : r.act n = a at hnext
      have hstep := stepped hnext
      generalize hs : r.state (n + 1) = s' at hstep
      obtain ⟨cs, h⟩ | ⟨cs, b, key, i, hb, h⟩ := ih hle
      · cases hstep with
        | down k hk | up k hk =>
            refine .inl ⟨cs, h.keep ?_ ?_ ?_⟩
            · rw [hact]
              exact nofun
            · rw [hs]
            · rw [hs]
        | call hpc => exact accounted_enter h hn hact hs
        | hit tick key i hpc | next tick key i hpc | miss tick key i hpc =>
            rw [h.outside] at hpc
            cases hpc
      · have hmissed (hslot : (r.state n).keyList[i]? ≠ some (code key)) :
            ∀ j < i + 1, Missed r b (n + 1) key j := by
          intro j hj
          obtain hlt | rfl := Nat.lt_succ_iff_lt_or_eq.1 hj
          · exact (h.missed j hlt).mono (Nat.le_succ n)
          · exact ⟨n, Nat.le_of_lt h.later, Nat.le_succ n, hslot⟩
        have hearlier : ∀ k, rank k < rank key → ∀ j < 10,
            Missed r b (n + 1) k j :=
          fun k hk j hj => (h.earlier k hk j hj).mono (Nat.le_succ n)
        have hidle (hz : key = .z) : (r.state n).player.state = .idle := by
          rw [h.player, sized_state]
          exact h.asks.resolve_right (fun hrun => hrun.2 hz)
        cases hstep with
        | down k hk | up k hk =>
            refine .inr ⟨cs, b, key, i, hb, h.goOn ?_ ?_ ?_ hidle ?_ hearlier⟩
            · rw [hact]
              exact nofun
            · rw [hs]
              exact h.pc
            · rw [hs]
            · intro j hj
              exact (h.missed j hj).mono (Nat.le_succ n)
        | call hpc =>
            rw [h.pc] at hpc
            cases hpc
        | hit tick key' i' hpc hslot =>
            rw [h.pc] at hpc
            cases hpc
            refine accounted_resume hb h hn hact hs (fun _ => ?_) nofun
            exact held_of_slot hle (hcode key) hslot
        | next tick key' i' hpc hslot =>
            rw [h.pc] at hpc
            cases hpc
            refine .inr ⟨cs, b, key, i + 1, hb,
              h.goOn ?_ ?_ ?_ hidle (hmissed hslot) hearlier⟩
            · rw [hact]
              exact nofun
            · rw [hs]
            · rw [hs]
        | miss tick key' i' hpc hslot hend =>
            rw [h.pc] at hpc
            cases hpc
            refine accounted_resume hb h hn hact hs nofun (fun _ j hj => ?_)
            exact hmissed hslot j (by omega)

end Underway

/-! ## The script and its calls -/

section Refinement

/-- The codes of the keys. -/
def allegroKey : Key → Int
  | .left => 82
  | .right => 83
  | .z => 26

theorem allegroKey_ne_zero (k : Key) : allegroKey k ≠ 0 := by
  cases k <;> decide

/-- The right key goes down, and a call finds it. -/
def rightPressed : List Action := [.down 83, .call, .read 100]

def rightPressedRun : Run (step allegroKey) (.init (createP1 0)) :=
  Run.ofExec rightPressed .call rfl

variable {code : Key → Int} {p : Entity} (r : Run (step code) (Sys.init p))

/-- Outside of its calls the script has done what its finished calls do one
after the other, each with answers that are true of the time it took. -/
theorem script_refines (hcode : ∀ k, code k ≠ 0) {n : Nat} (hn : n ≤ r.len)
    (hpc : (r.state n).pc = .outside) : ∃ cs, History r cs n := by
  obtain hdone | ⟨cs, b, key, i, -, h⟩ := accounted (r := r) hcode hn
  · exact hdone
  · rw [h.pc] at hpc
    cases hpc

theorem script_refines_rightPressed :
    ∃ cs, History rightPressedRun cs rightPressedRun.len :=
  script_refines rightPressedRun allegroKey_ne_zero (Nat.le_refl 3) rfl

/-- What the answer to a question does to the place of the player. -/
theorem resume_xpos (s : Sys) (tick : Int64) (key : Key) (last : Bool) :
    (resume s tick key last).player.xpos = s.player.xpos ∨
      (last = true ∧ key = .right ∧
        (resume s tick key last).player.xpos = s.player.xpos + 4) ∨
      (last = true ∧ key = .left ∧
        (resume s tick key last).player.xpos = s.player.xpos - 4) := by
  have hrun (left : Bool) (e : Entity) :
      (runAnimation e tick left).xpos = e.xpos ∨
        (runAnimation e tick left).xpos = e.xpos + (movement left).mx := by
    by_cases hthrottled : Throttled e tick
    · exact .inl (by rw [runAnimation, if_pos hthrottled])
    · exact .inr (by rw [runAnimation, if_neg hthrottled]; rfl)
  cases key with
  | right =>
      cases last with
      | true =>
          obtain hsame | hmoved := hrun false { s.player with state := .run }
          · exact .inl hsame
          · exact .inr (.inl ⟨rfl, rfl, hmoved⟩)
      | false => exact .inl rfl
  | left =>
      cases last with
      | true =>
          obtain hsame | hmoved := hrun true { s.player with state := .run }
          · exact .inl hsame
          · exact .inr (.inr ⟨rfl, rfl, hmoved⟩)
      | false =>
          refine .inl ?_
          simp only [resume]
          split <;> rfl
  | z =>
      cases last with
      | true => exact .inl rfl
      | false => exact .inl rfl

/-- The player moves to the right only while that key is held, and to the left
only while that key is held and the other one was not held during the whole
call. -/
theorem moves_with_keys (hcode : ∀ k, code k ≠ 0) {n : Nat} (hn : n < r.len) :
    (r.state (n + 1)).player.xpos = (r.state n).player.xpos ∨
      ((r.state (n + 1)).player.xpos = (r.state n).player.xpos + 4 ∧
        Held r n (code .right)) ∨
      ((r.state (n + 1)).player.xpos = (r.state n).player.xpos - 4 ∧
        Held r n (code .left) ∧
        (AtMostTen r → ∃ b t, r.act b = .call ∧
          (∀ m, b < m → m < n → r.act m ≠ .call) ∧ b ≤ t ∧ t ≤ n ∧
          ¬ Held r t (code .right))) := by
  have hle := Nat.le_of_lt hn
  have hstep := stepped (r.next n hn)
  have hacc := accounted (r := r) hcode hle
  generalize r.act n = a at hstep
  generalize r.state (n + 1) = s' at hstep
  cases hstep with
  | down | up | next => exact .inl rfl
  | call => exact .inl rfl
  | miss tick key i =>
      obtain hsame | ⟨hlast, -⟩ | ⟨hlast, -⟩ :=
        resume_xpos (r.state n) tick key false
      · exact .inl hsame
      · cases hlast
      · cases hlast
  | hit tick key i hpc hslot =>
      have hheld := held_of_slot hle (hcode key) hslot
      obtain hsame | ⟨-, rfl, hmoved⟩ | ⟨-, rfl, hmoved⟩ :=
        resume_xpos (r.state n) tick key true
      · exact .inl hsame
      · exact .inr (.inl ⟨hmoved, hheld⟩)
      · refine .inr (.inr ⟨hmoved, hheld, fun hten => ?_⟩)
        obtain ⟨cs, h⟩ | ⟨cs, b, key', i', -, h⟩ := hacc
        · rw [h.outside] at hpc
          cases hpc
        · rw [h.pc] at hpc
          cases hpc
          have hmissed := h.earlier .right (by decide)
          obtain ⟨t, hbt, htn, hnot⟩ :=
            exists_not_held hten hle (Nat.le_of_lt h.later) hmissed
          exact ⟨b, t, h.call, h.alone, hbt, htn, hnot⟩

theorem moves_with_keys_rightPressed :
    (rightPressedRun.state 3).player.xpos = 4 ∧ Held rightPressedRun 2 83 := by
  have hbefore : (rightPressedRun.state 2).player.xpos = 0 := rfl
  have hafter : (rightPressedRun.state 3).player.xpos = 4 := rfl
  refine ⟨hafter, ?_⟩
  obtain hsame | ⟨-, hheld⟩ | ⟨hback, -⟩ :=
    moves_with_keys rightPressedRun allegroKey_ne_zero (Nat.lt_succ_self 2)
  · rw [hbefore, hafter] at hsame
    omega
  · exact hheld
  · rw [hbefore, hafter] at hback
    omega

end Refinement

end Bucktoot.Ports.LiveKeys
