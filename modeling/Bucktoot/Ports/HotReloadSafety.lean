import Bucktoot.Ports.HotReload

/-!
# Hot reload never runs dead code

Three groups of facts hold in every reachable state, each resting on the one
before it:

* `Locks` — who is inside of the critical section, and that nobody enters it
  before it exists;
* `Code` — what the compile thread keeps true of `g_script_func`, `state` and
  the live `TCCState`s, at every point of a reload and whatever fails;
* `Calls` — what the game thread knows of the pointer it has loaded.

The pointer stays good while the game thread is in the script because the
compile thread touches nothing of it outside of the critical section
(`compiler_outside`).
-/

namespace Bucktoot.Ports.HotReload

open Bucktoot.Verified.StepSystem

/-! ## The critical section -/

/-- What the step of a party does to the lock: nothing, or it takes the lock
when it is free, or it gives the lock back.  `inside` tells whether the party
is inside of the critical section. -/
inductive LockStep (p : Party) (inside inside' : Bool)
    (owner owner' : Option Party) : Prop where
  | keep (hinside : inside' = inside) (howner : owner' = owner)
  | acquire (hfree : owner = none) (hinside : inside' = true)
      (howner : owner' = some p)
  | release (hheld : inside = true) (hinside : inside' = false)
      (howner : owner' = none)

/-- The party that takes the step still knows whether it has the lock. -/
theorem LockStep.self {p : Party} {inside inside' : Bool}
    {owner owner' : Option Party} (h : LockStep p inside inside' owner owner')
    (hp : inside = true ↔ owner = some p) :
    inside' = true ↔ owner' = some p := by
  cases h with
  | keep hinside howner =>
      rw [hinside, howner]
      exact hp
  | acquire hfree hinside howner => simp [hinside, howner]
  | release hheld hinside howner => simp [hinside, howner]

/-- So does any other party. -/
theorem LockStep.other {p q : Party} {inside inside' : Bool}
    {owner owner' : Option Party} (h : LockStep p inside inside' owner owner')
    (hp : inside = true ↔ owner = some p) (hne : p ≠ q) :
    owner' = some q ↔ owner = some q := by
  cases h with
  | keep hinside howner => rw [howner]
  | acquire hfree hinside howner => simp [hfree, howner, hne]
  | release hheld hinside howner => simp [hp.1 hheld, howner, hne]

theorem compiler_lock {s s' : Sys} {ok : Bool}
    (h : stepCompiler s ok = some s') :
    LockStep .compiler s.pc.inside s'.pc.inside s.owner s'.owner := by
  cases hpc : s.pc
  all_goals simp only [stepCompiler, hpc] at h
  case enter =>
    split at h
    · rename_i hfree
      cases h
      exact .acquire hfree rfl rfl
    · cases h
  case leave =>
    cases h
    exact .release rfl rfl rfl
  all_goals repeat' split at h
  all_goals cases h
  all_goals exact .keep rfl rfl

/-- A step of the game thread. -/
inductive GameStep (s : Sys) : Sys → Prop where
  | stay (hpc : s.game = .idle) : GameStep s s
  | call (hpc : s.game = .idle) (hready : s.mutexReady = true) :
      GameStep s { s with game := .enter }
  | enter (hpc : s.game = .enter) (hfree : s.owner = none) :
      GameStep s { s with owner := some .game, game := .testFunc }
  | found (hpc : s.game = .testFunc) (p : Symbol)
      (hfunc : s.scriptFunc = some p) : GameStep s { s with game := .loadFunc }
  | missing (hpc : s.game = .testFunc) : GameStep s { s with game := .leave }
  | load (hpc : s.game = .loadFunc) :
      GameStep s { s with game := .calling s.scriptFunc }
  | back (m : Option Symbol) (hpc : s.game = .calling m) :
      GameStep s { s with game := .leave }
  | leave (hpc : s.game = .leave) :
      GameStep s { s with owner := none, game := .idle }

theorem game_step {s s' : Sys} (h : stepGame s = some s') :
    GameStep s s' := by
  cases hpc : s.game
  all_goals simp only [stepGame, hpc] at h
  case idle =>
    split at h
    · rename_i hready
      cases h
      exact .call hpc hready
    · cases h
      rw [← hpc]
      exact .stay hpc
  case enter =>
    split at h
    · rename_i hfree
      cases h
      exact .enter hpc hfree
    · cases h
  case testFunc =>
    split at h
    · rename_i p hfunc
      cases h
      exact .found hpc p hfunc
    · cases h
      exact .missing hpc
  case loadFunc =>
    cases h
    exact .load hpc
  case calling m =>
    cases h
    exact .back m hpc
  case leave =>
    cases h
    exact .leave hpc

theorem game_lock {s s' : Sys} (h : stepGame s = some s') :
    LockStep .game s.game.inside s'.game.inside s.owner s'.owner := by
  cases game_step h with
  | stay hpc => exact .keep rfl rfl
  | enter hpc hfree => exact .acquire hfree rfl rfl
  | leave hpc => exact .release (by rw [hpc]; rfl) rfl rfl
  | call hpc | found hpc | missing hpc | load hpc | back m hpc =>
      exact .keep (by rw [hpc]; rfl) rfl

/-- The game thread writes nothing but the lock and its own program counter. -/
theorem game_frame {s s' : Sys} (h : stepGame s = some s') :
    s' = { s with owner := s'.owner, game := s'.game } := by
  cases game_step h <;> rfl

/-- `InitializeCriticalSection` is never undone, and both `g_mutex_ready` and
the rest of the compile thread lie behind it. -/
theorem compiler_start {s s' : Sys} {ok : Bool}
    (h : stepCompiler s ok = some s') :
    (s.mutexInit = true → s'.mutexInit = true) ∧
    (s'.mutexReady = true → s.mutexReady = true ∨ s.pc.started = true) ∧
    (s'.pc.started = true → s.pc.started = true ∨ s'.mutexInit = true) := by
  cases hpc : s.pc
  all_goals simp only [stepCompiler, hpc] at h
  case allocPath =>
    cases h
    exact ⟨id, .inl, .inl⟩
  case initMutex =>
    cases h
    exact ⟨fun _ => rfl, .inl, fun _ => .inr rfl⟩
  case setReady =>
    cases h
    exact ⟨id, fun _ => .inr rfl, fun _ => .inl rfl⟩
  all_goals repeat' split at h
  all_goals cases h
  all_goals exact ⟨id, .inl, fun _ => .inl rfl⟩

/-- The game thread goes for the lock only when it has found `g_mutex_ready`
set. -/
theorem game_enter {s s' : Sys} (h : stepGame s = some s')
    (henter : s'.game = .enter) : s.mutexReady = true := by
  cases game_step h with
  | stay hpc =>
      rw [hpc] at henter
      cases henter
  | call hpc hready => exact hready
  | enter | found | missing | load | back | leave => cases henter

theorem compiler_game {s s' : Sys} {ok : Bool}
    (h : stepCompiler s ok = some s') : s'.game = s.game := by
  cases hpc : s.pc
  all_goals
    simp only [stepCompiler, hpc] at h
    repeat' split at h
  all_goals cases h
  all_goals rfl

/-- The lock is held by whoever is inside, and entered by nobody before it has
been initialised. -/
structure Locks (s : Sys) : Prop where
  ready : s.mutexReady = true → s.mutexInit = true
  started : s.pc.started = true → s.mutexInit = true
  entering : s.game = .enter → s.mutexInit = true
  compiler : s.pc.inside = true ↔ s.owner = some .compiler
  game : s.game.inside = true ↔ s.owner = some .game

theorem locks_init (content : List UInt8) : Locks (Sys.init content) := by
  constructor <;>
    simp [Sys.init, CompilePc.started, CompilePc.inside, GamePc.inside]

theorem locks_compiler {s s' : Sys} {ok : Bool} (hi : Locks s)
    (h : stepCompiler s ok = some s') : Locks s' := by
  obtain ⟨hinit, hready, hstarted⟩ := compiler_start h
  have hlock := compiler_lock h
  have hgame := compiler_game h
  constructor
  case ready =>
    intro hset
    rcases hready hset with hbefore | hbehind
    · exact hinit (hi.ready hbefore)
    · exact hinit (hi.started hbehind)
  case started =>
    intro hpc
    rcases hstarted hpc with hbefore | hnow
    · exact hinit (hi.started hbefore)
    · exact hnow
  case entering =>
    intro henter
    rw [hgame] at henter
    exact hinit (hi.entering henter)
  case compiler => exact hlock.self hi.compiler
  case game =>
    rw [hgame, hlock.other hi.compiler (by decide)]
    exact hi.game

theorem locks_game {s s' : Sys} (hi : Locks s) (h : stepGame s = some s') :
    Locks s' := by
  have hlock := game_lock h
  have hframe := game_frame h
  constructor
  case ready =>
    rw [hframe]
    exact hi.ready
  case started =>
    rw [hframe]
    exact hi.started
  case entering =>
    intro hgo
    rw [hframe]
    exact hi.ready (game_enter h hgo)
  case compiler =>
    rw [hlock.other hi.game (by decide), hframe]
    exact hi.compiler
  case game => exact hlock.self hi.game

/-- The two threads are never inside at the same time. -/
theorem Locks.exclusive {s : Sys} (h : Locks s)
    (hgame : s.game.inside = true) : s.pc.inside = false := by
  cases hc : s.pc.inside with
  | false => rfl
  | true =>
      have howner := h.compiler.1 hc
      rw [h.game.1 hgame] at howner
      cases howner

/-! ## The compiled code -/

/-- The live state is the one the thread holds, and the pointer, unless it is
null, is the symbol of this state, which has been compiled successfully. -/
structure Code (s : Sys) : Prop where
  live : s.live = s.state.toList
  cleared : s.pc.cleared = true → s.scriptFunc = none
  compiled : s.pc = .getSymbol → ∀ id, s.state = some id → id ∈ s.succeeded
  func : ∀ p, s.scriptFunc = some p →
    s.state = some p.id ∧ p.id ∈ s.succeeded

theorem code_init (content : List UInt8) : Code (Sys.init content) := by
  constructor <;> simp [Sys.init]

theorem code_compiler {s s' : Sys} {ok : Bool} (hi : Code s)
    (h : stepCompiler s ok = some s') : Code s' := by
  obtain ⟨hlive, hcleared, hcompiled, hfunc⟩ := hi
  cases hpc : s.pc
  all_goals
    simp only [stepCompiler, hpc] at h
    simp only [hpc, CompilePc.cleared, forall_const] at hcleared
  case clearFunc =>
    cases h
    exact ⟨hlive, fun _ => rfl, nofun, nofun⟩
  case deleteState =>
    split at h
    · -- the pointer is null already, so nothing points into what is deleted
      rename_i id hstate
      cases h
      refine ⟨?_, fun _ => hcleared, nofun, ?_⟩
      · show s.live.erase id = []
        simp [hlive, hstate]
      · intro p hp
        exact nomatch hcleared.symm.trans hp
    · cases h
      exact ⟨hlive, fun _ => hcleared, nofun, hfunc⟩
  case newState =>
    split at h
    · cases h
      exact ⟨hlive, fun _ => hcleared, nofun, hfunc⟩
    · rename_i hstate
      split at h
      · -- no state is held, so the new one is the only one
        cases h
        refine ⟨?_, fun _ => hcleared, nofun, ?_⟩
        · show s.fresh :: s.live = [s.fresh]
          simp [hlive, hstate]
        · intro p hp
          exact nomatch hcleared.symm.trans hp
      · cases h
        exact ⟨hlive, fun _ => hcleared, nofun, hfunc⟩
  case testState | openFile | getFlen | allocStr | fread | compileString =>
    repeat' split at h
    all_goals cases h
    all_goals exact ⟨hlive, fun _ => hcleared, nofun, hfunc⟩
  case relocate =>
    split at h
    · rename_i id hstate
      split at h
      · -- `compile_program` returns `TRUE`
        cases h
        refine ⟨hlive, fun _ => hcleared, ?_, ?_⟩
        · intro _ id' hid'
          obtain rfl : id = id' := Option.some.inj (hstate.symm.trans hid')
          exact List.mem_cons_self
        · intro p hp
          exact nomatch hcleared.symm.trans hp
      · cases h
        exact ⟨hlive, nofun, nofun, hfunc⟩
    · cases h
      exact ⟨hlive, nofun, nofun, hfunc⟩
  case getSymbol =>
    split at h
    · -- the symbol is one of the state that has just been compiled
      rename_i id code hstate hstr
      cases h
      refine ⟨hlive, nofun, nofun, ?_⟩
      intro p hp
      dsimp only at hp
      split at hp
      · cases hp
        exact ⟨hstate, hcompiled hpc id hstate⟩
      · cases hp
    · cases h
      exact ⟨hlive, nofun, nofun, hfunc⟩
  -- outside of a reload nothing of this changes
  all_goals repeat' split at h
  all_goals cases h
  all_goals exact ⟨hlive, nofun, nofun, hfunc⟩

/-- Outside of the critical section the compile thread leaves the code
alone. -/
theorem compiler_outside {s s' : Sys} {ok : Bool}
    (hout : s.pc.inside = false) (h : stepCompiler s ok = some s') :
    s'.scriptFunc = s.scriptFunc := by
  cases hpc : s.pc
  all_goals
    simp only [stepCompiler, hpc] at h
    simp only [hpc, CompilePc.inside] at hout
    repeat' split at h
  all_goals cases h
  all_goals simp_all

theorem code_game {s s' : Sys} (hi : Code s) (h : stepGame s = some s') :
    Code s' := by
  rw [game_frame h]
  exact ⟨hi.live, hi.cleared, hi.compiled, hi.func⟩

/-! ## The call -/

/-- The pointer the game thread has found, and then the one it calls, is the
one in `g_script_func`. -/
structure Calls (s : Sys) : Prop where
  loading : s.game = .loadFunc → ∃ p, s.scriptFunc = some p
  calling : ∀ m, s.game = .calling m → m = s.scriptFunc ∧ ∃ p, m = some p

theorem calls_init (content : List UInt8) : Calls (Sys.init content) := by
  constructor <;> simp [Sys.init]

/-- While the game thread is at it, the compile thread waits outside. -/
theorem calls_compiler {s s' : Sys} {ok : Bool} (hlocks : Locks s)
    (hi : Calls s) (h : stepCompiler s ok = some s') : Calls s' := by
  have hgame := compiler_game h
  have hsame : s.game.inside = true → s'.scriptFunc = s.scriptFunc :=
    fun hin => compiler_outside (hlocks.exclusive hin) h
  constructor
  · intro hload
    rw [hgame] at hload
    rw [hsame (by rw [hload]; rfl)]
    exact hi.loading hload
  · intro m hcall
    rw [hgame] at hcall
    rw [hsame (by rw [hcall]; rfl)]
    exact hi.calling m hcall

theorem calls_game {s s' : Sys} (hi : Calls s) (h : stepGame s = some s') :
    Calls s' := by
  cases game_step h with
  | stay hpc => exact hi
  | found hpc p hfunc => exact ⟨fun _ => ⟨p, hfunc⟩, nofun⟩
  | load hpc =>
      refine ⟨nofun, fun m hcall => ?_⟩
      cases hcall
      exact ⟨rfl, hi.loading hpc⟩
  | call | enter | missing | back | leave => exact ⟨nofun, nofun⟩

/-! ## All three along a run -/

/-- What holds in every reachable state. -/
structure Inv (s : Sys) : Prop where
  locks : Locks s
  code : Code s
  calls : Calls s

theorem inv_init (content : List UInt8) : Inv (Sys.init content) :=
  ⟨locks_init content, code_init content, calls_init content⟩

/-- What happens in the directory touches nothing of this. -/
theorem Inv.directory {s : Sys} (hi : Inv s) (content : List UInt8)
    (pending : Nat) (recorded : Bool) :
    Inv { s with
      content := content, pending := pending, recorded := recorded } := by
  obtain ⟨hlocks, hcode, hcalls⟩ := hi
  constructor
  case locks =>
    exact ⟨hlocks.ready, hlocks.started, hlocks.entering, hlocks.compiler,
      hlocks.game⟩
  case code => exact ⟨hcode.live, hcode.cleared, hcode.compiled, hcode.func⟩
  case calls => exact ⟨hcalls.loading, hcalls.calling⟩

theorem inv_step {s s' : Sys} {a : Action} (hi : Inv s)
    (h : step s a = some s') : Inv s' := by
  cases a with
  | compiler ok =>
      exact ⟨locks_compiler hi.locks h, code_compiler hi.code h,
        calls_compiler hi.locks hi.calls h⟩
  | game =>
      exact ⟨locks_game hi.locks h, code_game hi.code h, calls_game hi.calls h⟩
  | write content =>
      cases h
      exact hi.directory content (s.pending + 1) s.recorded
  | notify =>
      simp only [step] at h
      split at h
      · cases h
        exact hi.directory s.content (s.pending - 1) (s.recorded || s.armed)
      · cases h
  | other =>
      cases h
      exact hi.directory s.content s.pending (s.recorded || s.armed)

theorem inv_reachable {content : List UInt8} {s : Sys}
    (h : Reachable step (Sys.init content) s) : Inv s :=
  reachable_invariant Inv (inv_init content) (fun _ _ _ hi hs => inv_step hi hs)
    h

/-- What the reload owes the game. -/
structure SafeReload (s : Sys) : Prop where
  /-- Nobody is about to enter a critical section that does not exist. -/
  compilerEnters : s.pc = .enter → s.mutexInit = true
  gameEnters : s.game = .enter → s.mutexInit = true
  /-- The pointer being called is the symbol of a state that has been compiled
  successfully and has not been deleted. -/
  calls : ∀ m, s.game = .calling m →
    ∃ p, m = some p ∧ p.id ∈ s.succeeded ∧ p.id ∈ s.live
  /-- There is at most one live state. -/
  oneLive : s.live.length ≤ 1

/-- **No dead code.**  Every reachable state is safe, however the threads
interleave and whatever fails. -/
theorem reload_safe {content : List UInt8} {s : Sys}
    (h : Reachable step (Sys.init content) s) : SafeReload s := by
  obtain ⟨hlocks, hcode, hcalls⟩ := inv_reachable h
  constructor
  case compilerEnters =>
    intro hpc
    exact hlocks.started (by rw [hpc]; rfl)
  case gameEnters => exact hlocks.entering
  case calls =>
    intro m hm
    obtain ⟨hsame, p, rfl⟩ := hcalls.calling m hm
    obtain ⟨hstate, hgood⟩ := hcode.func p hsame.symm
    refine ⟨p, rfl, hgood, ?_⟩
    rw [hcode.live, hstate]
    exact List.mem_cons_self
  case oneLive =>
    rw [hcode.live]
    cases s.state with
    | none => exact Nat.zero_le 1
    | some id => exact Nat.le_refl 1

/-- The compile thread's way to its first wait, and a call of what it has
compiled. -/
def firstCall : List Action :=
  List.replicate 18 (.compiler true) ++ List.replicate 4 .game

/-- The game thread is in the script that was compiled from one letter. -/
def inScript : Sys :=
  { mutexInit := true, mutexReady := true, owner := some .game
    scriptFunc := some ⟨0, [120]⟩, live := [0], fresh := 1, succeeded := [0]
    content := [120], pending := 0, armed := true, recorded := false
    path := true, state := some 0, len := 1, str := some [120]
    pc := .findNext, game := .calling (some ⟨0, [120]⟩) }

theorem inScript_safe : SafeReload inScript := by
  have hexec : exec step firstCall (Sys.init [120]) = some inScript := rfl
  exact reload_safe (reachable_of_exec hexec)

end Bucktoot.Ports.HotReload
