import Bucktoot.Ports.HotReloadSafety

/-!
# Hot reload gets on

Nothing is said about how the threads are scheduled, so progress is counted in
the steps a thread gets.

* `someone_moves` — the two threads never wait for each other;
* `lock_is_given_back` — who is inside of the critical section has left it
  after a bounded number of steps of its own;
* `change_is_picked_up` — a recorded change has led to a new reload, or to the
  end of the compile thread, after a bounded number of steps of that thread.
-/

namespace Bucktoot.Ports.HotReload

open Bucktoot.Verified.StepSystem

/-! ## How far it is -/

/-- The steps from a point of the loop to the next reload at most. -/
def CompilePc.distance : CompilePc → Nat
  | .clearFunc => 14
  | .deleteState => 13
  | .newState => 12
  | .testState => 11
  | .openFile => 10
  | .getFlen => 9
  | .allocStr => 8
  | .fread => 7
  | .compileString => 6
  | .relocate => 5
  | .getSymbol => 4
  | .leave => 3
  | .findNext => 2
  | .wait => 1
  | _ => 0

/-- The steps of the game thread to the end of its call at most. -/
def GamePc.distance : GamePc → Nat
  | .testFunc => 4
  | .loadFunc => 3
  | .calling _ => 2
  | .leave => 1
  | _ => 0

/-- The steps a party inside of the critical section has to go at most. -/
def left (p : Party) (s : Sys) : Nat :=
  match p with
  | .compiler => s.pc.distance - 2
  | .game => s.game.distance

/-- The steps a party inside of the critical section needs at most. -/
def longest : Party → Nat
  | .compiler => 12
  | .game => 4

/-- Whose step an action is. -/
def Action.party : Action → Option Party
  | .compiler _ => some .compiler
  | .game => some .game
  | _ => none

theorem compiler_distance {s s' : Sys} {ok : Bool}
    (h : stepCompiler s ok = some s') (hfar : 0 < s.pc.distance) :
    s'.pc.distance < s.pc.distance := by
  cases hpc : s.pc
  all_goals
    simp only [stepCompiler, hpc] at h
    simp only [hpc, CompilePc.distance, Nat.lt_irrefl] at hfar
  all_goals repeat' split at h
  all_goals cases h
  all_goals simp [CompilePc.distance]

theorem game_distance {s s' : Sys} (h : stepGame s = some s')
    (hinside : s.game.inside = true) :
    s'.game.distance < s.game.distance := by
  cases game_step h with
  | stay hpc | call hpc | enter hpc =>
      rw [hpc] at hinside
      cases hinside
  | found hpc | missing hpc | load hpc | back m hpc | leave hpc =>
      rw [hpc]
      simp [GamePc.distance]

/-- Inside of the critical section there is something left to do. -/
theorem inside_distance (s : Sys) :
    (s.pc.inside = true ↔ 2 < s.pc.distance) ∧
      (s.game.inside = true → 0 < s.game.distance) := by
  constructor
  · cases s.pc <;> simp [CompilePc.inside, CompilePc.distance]
  · cases s.game <;> simp [GamePc.inside, GamePc.distance]

theorem distance_le (pc : CompilePc) : pc.distance ≤ 14 := by
  cases pc <;> decide

theorem left_le_longest (p : Party) (s : Sys) : left p s ≤ longest p := by
  cases p with
  | compiler =>
      have hle := distance_le s.pc
      show s.pc.distance - 2 ≤ 12
      omega
  | game =>
      show s.game.distance ≤ 4
      cases s.game <;> simp [GamePc.distance]

/-! ## The lock -/

/-- Whether a step is taken by a party. -/
def TakenBy (p : Party) (a : Action) : Prop := a.party = some p

instance (p : Party) : DecidablePred (TakenBy p) :=
  fun a => inferInstanceAs (Decidable (a.party = some p))

/-- Only the steps of the compile thread move it, and they bring it nearer to
its next reload. -/
theorem distance_step {s s' : Sys} {a : Action} (h : step s a = some s')
    (hfar : 0 < s.pc.distance) :
    s'.pc.distance + (if TakenBy .compiler a then 1 else 0) ≤
      s.pc.distance := by
  cases a with
  | compiler ok => exact compiler_distance h hfar
  | game =>
      rw [game_frame h]
      exact Nat.le_refl _
  | write content | other =>
      cases h
      exact Nat.le_refl _
  | notify =>
      simp only [step] at h
      split at h
      · cases h
        exact Nat.le_refl _
      · cases h

/-- Steps of the one who is inside bring it nearer to the end, and other steps
do not take it back. -/
theorem left_step {s s' : Sys} {a : Action} {p : Party} (hi : Inv s)
    (h : step s a = some s') (howner : s.owner = some p) :
    left p s' + (if TakenBy p a then 1 else 0) ≤ left p s := by
  obtain ⟨hinside, hgame⟩ := inside_distance s
  cases a with
  | compiler ok =>
      cases p with
      | compiler =>
          have hfar := hinside.1 (hi.locks.compiler.2 howner)
          have hnear := compiler_distance h (by omega)
          show s'.pc.distance - 2 + 1 ≤ s.pc.distance - 2
          omega
      | game =>
          show s'.game.distance + 0 ≤ s.game.distance
          rw [compiler_game h]
          exact Nat.le_refl _
  | game =>
      cases p with
      | compiler =>
          show s'.pc.distance - 2 + 0 ≤ s.pc.distance - 2
          rw [game_frame h]
          exact Nat.le_refl _
      | game => exact game_distance h (hi.locks.game.2 howner)
  | write content | other =>
      cases h
      cases p <;> exact Nat.le_refl _
  | notify =>
      simp only [step] at h
      split at h
      · cases h
        cases p <;> exact Nat.le_refl _
      · cases h

/-- Nobody takes the lock away from the one who is inside. -/
theorem owner_step {s s' : Sys} {a : Action} {p : Party}
    (h : step s a = some s') (howner : s.owner = some p) :
    s'.owner = some p ∨ s'.owner = none := by
  have hlock {q : Party} {inside inside' : Bool}
      (hstep : LockStep q inside inside' s.owner s'.owner) :
      s'.owner = some p ∨ s'.owner = none := by
    cases hstep with
    | keep _ hkeep => exact .inl (hkeep.trans howner)
    | acquire hfree => exact nomatch hfree.symm.trans howner
    | release _ _ hfree => exact .inr hfree
  cases a with
  | compiler ok => exact hlock (compiler_lock h)
  | game => exact hlock (game_lock h)
  | write content | other =>
      cases h
      exact .inl howner
  | notify =>
      simp only [step] at h
      split at h
      · cases h
        exact .inl howner
      · cases h

/-- The two threads never wait for each other: the game thread can go on, or
the compile thread can, whatever the calls it makes come to. -/
theorem someone_moves {content : List UInt8} {s : Sys}
    (h : Reachable step (Sys.init content) s) :
    (∃ s', step s .game = some s') ∨
      ∀ ok, ∃ s', step s (.compiler ok) = some s' := by
  have hi := inv_reachable h
  cases howner : s.owner with
  | none =>
      refine .inl ?_
      cases hpc : s.game
      all_goals simp only [step, stepGame, hpc, howner]
      case testFunc => cases s.scriptFunc <;> exact ⟨_, rfl⟩
      all_goals exact ⟨_, rfl⟩
  | some p =>
      cases p with
      | compiler =>
          refine .inr (fun ok => ?_)
          have hinside := hi.locks.compiler.2 howner
          cases hpc : s.pc
          all_goals rw [hpc] at hinside
          all_goals simp only [CompilePc.inside, Bool.false_eq_true] at hinside
          all_goals simp only [step, stepCompiler, hpc]
          all_goals repeat' split
          all_goals exact ⟨_, rfl⟩
      | game =>
          refine .inl ?_
          have hinside := hi.locks.game.2 howner
          cases hpc : s.game
          all_goals rw [hpc] at hinside
          all_goals simp only [GamePc.inside, Bool.false_eq_true] at hinside
          all_goals simp only [step, stepGame, hpc]
          case testFunc => cases s.scriptFunc <;> exact ⟨_, rfl⟩
          all_goals exact ⟨_, rfl⟩

section Runs

variable {content : List UInt8} (r : Run step (Sys.init content)) {m n : Nat}

/-- **The critical section is left again.**  A party that is inside and takes
as many steps as its way out is long has given the lock back in between,
however the other steps of the run lie around them. -/
theorem lock_is_given_back {p : Party} (hmn : m ≤ n) (hn : n ≤ r.len)
    (howner : (r.state m).owner = some p)
    (htaken : longest p ≤ r.taken (TakenBy p) m n) :
    ∃ t, m < t ∧ t ≤ n ∧ (r.state t).owner = none := by
  have hinv (i : Nat) (hi : i ≤ r.len) : Inv (r.state i) :=
    inv_reachable (r.reachable hi)
  have hexit : ∃ t, m ≤ t ∧ t ≤ n ∧ ¬ (r.state t).owner = some p := by
    refine r.exists_exit (fun s => s.owner = some p) (left p) hmn ?_ ?_
      (Nat.le_trans (left_le_longest p _) htaken)
    · intro i _ hin hstill _
      exact left_step (hinv i (by omega)) (r.next i (by omega)) hstill
    · intro hend
      obtain ⟨hinside, hgame⟩ := inside_distance (r.state n)
      have hlocks := (hinv n hn).locks
      cases p with
      | compiler =>
          have hfar := hinside.1 (hlocks.compiler.2 hend)
          show 0 < (r.state n).pc.distance - 2
          omega
      | game => exact hgame (hlocks.game.2 hend)
  obtain ⟨t, hmt, htn, hlost⟩ := hexit
  obtain ⟨u, hut, hheld, hafter⟩ := exists_rise
    (P := fun k => ¬ (r.state (m + k)).owner = some p) (n := t - m)
    (fun hnot => hnot howner)
    (by rw [Nat.add_sub_cancel' hmt]; exact hlost)
  have hnext := hafter (u + 1) (by omega) (by omega)
  have hstep := r.next (m + u) (by omega)
  refine ⟨m + (u + 1), by omega, by omega, ?_⟩
  exact (owner_step hstep
    (Classical.not_not.1 hheld)).resolve_left hnext

end Runs

/-- The first reload, with a notification in the middle of it, and the way to
the next one. -/
def notifiedReload : List Action :=
  List.replicate 6 (.compiler true) ++ .other ::
    List.replicate 14 (.compiler true)

def notifiedRun : Run step (Sys.init [120]) :=
  Run.ofExec notifiedReload .game rfl

/-- The compile thread is inside from moment `6` on. -/
theorem lock_is_given_back_notified :
    ∃ t, 6 < t ∧ t ≤ 21 ∧ (notifiedRun.state t).owner = none :=
  lock_is_given_back notifiedRun (p := .compiler) (by decide) (by decide) rfl
    (by decide)

theorem someone_moves_notified :
    (∃ s', step (notifiedRun.state 6) .game = some s') ∨
      ∀ ok, ∃ s', step (notifiedRun.state 6) (.compiler ok) = some s' :=
  someone_moves (notifiedRun.reachable (i := 6) (by decide))

/-! ## Changes -/

/-- The compile thread does not watch the directory yet. -/
def CompilePc.early : CompilePc → Bool
  | .allocPath | .initMutex | .setReady | .testPath | .findFirst => true
  | _ => false

/-- Before the directory is watched no change is recorded. -/
def NothingEarly (s : Sys) : Prop :=
  s.pc.early = true → s.armed = false ∧ s.recorded = false

theorem nothingEarly_step {s s' : Sys} {a : Action} (hi : NothingEarly s)
    (h : step s a = some s') : NothingEarly s' := by
  cases a with
  | compiler ok =>
      unfold NothingEarly at hi ⊢
      cases hpc : s.pc
      all_goals simp only [step, stepCompiler, hpc] at h
      all_goals simp only [hpc, CompilePc.early, forall_const] at hi
      all_goals repeat' split at h
      all_goals cases h
      all_goals first
        | exact fun _ => hi
        | exact fun hearly => absurd hearly Bool.false_ne_true
  | game =>
      rw [game_frame h]
      exact hi
  | write content =>
      cases h
      exact hi
  | notify =>
      simp only [step] at h
      split at h
      · cases h
        intro hearly
        obtain ⟨harmed, hrecorded⟩ := hi hearly
        exact ⟨harmed, by simp [harmed, hrecorded]⟩
      · cases h
  | other =>
      cases h
      intro hearly
      obtain ⟨harmed, hrecorded⟩ := hi hearly
      exact ⟨harmed, by simp [harmed, hrecorded]⟩

/-- The compile thread stands in front of entering the mutex for a reload, or
is at its end. -/
def Answered (s : Sys) : Prop :=
  s.pc = .enter ∨ s.pc = .exitThread ∨ s.pc = .exited

/-- A recorded change stays recorded on the way to the next reload. -/
theorem recorded_step {s s' : Sys} {a : Action} (h : step s a = some s')
    (hrecorded : s.recorded = true) (hfar : 0 < s.pc.distance) :
    (s'.recorded = true ∧ 0 < s'.pc.distance) ∨ Answered s' := by
  cases a with
  | compiler ok =>
      cases hpc : s.pc
      all_goals simp only [step, stepCompiler, hpc] at h
      all_goals simp only [hpc, CompilePc.distance, Nat.lt_irrefl] at hfar
      all_goals repeat' split at h
      all_goals cases h
      -- the loop goes on, starts anew or is left
      all_goals first
        | exact .inl ⟨hrecorded, Nat.succ_pos _⟩
        | exact .inr (.inl rfl)
        | exact .inr (.inr (.inl rfl))
  | game =>
      rw [game_frame h]
      exact .inl ⟨hrecorded, hfar⟩
  | write content =>
      cases h
      exact .inl ⟨hrecorded, hfar⟩
  | notify =>
      simp only [step] at h
      split at h
      · cases h
        exact .inl ⟨by simp [hrecorded], hfar⟩
      · cases h
  | other =>
      cases h
      exact .inl ⟨by simp [hrecorded], hfar⟩

section Runs

variable {content : List UInt8} (r : Run step (Sys.init content)) {m n : Nat}

/-- **No change is forgotten.**  Once a change has been recorded, the compile
thread comes to enter the mutex for a new reload, or to its end, within
fourteen steps of its own. -/
theorem change_is_picked_up (hmn : m ≤ n) (hn : n ≤ r.len)
    (hrecorded : (r.state m).recorded = true)
    (htaken : 14 ≤ r.taken (TakenBy .compiler) m n) :
    ∃ t, m ≤ t ∧ t ≤ n ∧ Answered (r.state t) := by
  by_contra hall
  push Not at hall
  have hearly : NothingEarly (r.state m) :=
    r.invariant NothingEarly (fun _ => ⟨rfl, rfl⟩)
      (fun _ _ _ hi hs => nothingEarly_step hi hs) (Nat.le_trans hmn hn)
  have hfar : 0 < (r.state m).pc.distance := by
    have hnot := hall m (Nat.le_refl m) hmn
    unfold NothingEarly at hearly
    unfold Answered at hnot
    cases hpc : (r.state m).pc
    all_goals simp_all [CompilePc.distance, CompilePc.early]
  have hway : ∀ k, m ≤ k → k ≤ n →
      (r.state k).recorded = true ∧ 0 < (r.state k).pc.distance := by
    intro k hmk
    induction k, hmk using Nat.le_induction with
    | base => exact fun _ => ⟨hrecorded, hfar⟩
    | succ k hmk ih =>
        intro hkn
        obtain ⟨hstill, hon⟩ := ih (Nat.le_of_succ_le hkn)
        exact (recorded_step (r.next k (by omega)) hstill hon).resolve_right
          (hall (k + 1) (by omega) hkn)
  obtain ⟨t, hmt, htn, hend⟩ := r.exists_exit (A := TakenBy .compiler)
    (fun s => 0 < s.pc.distance) (fun s => s.pc.distance) hmn
    (fun i _ hin hon _ => distance_step (r.next i (by omega)) hon) id
    (Nat.le_trans (distance_le _) htaken)
  exact hend (hway t hmt htn).2

end Runs

theorem change_is_picked_up_notified :
    ∃ t, 7 ≤ t ∧ t ≤ 21 ∧ Answered (notifiedRun.state t) :=
  change_is_picked_up notifiedRun (by decide) (by decide) rfl (by decide)

end Bucktoot.Ports.HotReload
