import Bucktoot.Verified.StepSystem

/-!
# Hot reload: `compile_thread` and `move_player1_script` of `compiler.c`

One thread watches the directory of `move_code.c`, and compiles the file anew
whenever it is notified of a change; the game thread calls what has been
compiled.  They share `g_script_func`, `g_mutex_ready` and the critical
section `g_mutex`; the compiled code belongs to a `TCCState` that only the
compile thread creates and deletes.

Every statement of the two functions that touches something shared is one
step, and so is every call whose failure the source looks at; the action of
the step says whether the call succeeds.  The third party is whatever writes
to the directory: an editor changes the content of `move_code.c`, which is
notified some time later, and anything else in the directory may be notified
at any time.

## What is outside of the source

The critical section gives mutual exclusion and shared variables are
sequentially consistent.  A change notification is recorded from
`FindFirstChangeNotification` on until a wait consumes it, and several of
them are recorded as one.  Scripts return.
-/

namespace Bucktoot.Ports.HotReload

open Bucktoot.Verified.StepSystem

/-! ## States -/

/-- The threads that enter the critical section. -/
inductive Party where
  | compiler
  | game
  deriving DecidableEq

/-- A pointer that `tcc_get_symbol` returned: the `TCCState` whose memory it
points into, and the text that was compiled there. -/
structure Symbol where
  id : Nat
  code : List UInt8

/-- Where `compile_thread` stands: the step it takes next. -/
inductive CompilePc where
  | allocPath
  | initMutex
  | setReady
  | testPath
  | findFirst
  | enter
  | clearFunc
  | deleteState
  | newState
  | testState
  | openFile
  | getFlen
  | allocStr
  | fread
  | compileString
  | relocate
  | getSymbol
  | leave
  | findNext
  | wait
  | exitThread
  | exited
  deriving DecidableEq

/-- Where the game thread stands in `move_player1_script`; `idle` is in front
of a call. -/
inductive GamePc where
  | idle
  | enter
  | testFunc
  | loadFunc
  | calling (moveCode : Option Symbol)
  | leave

/-- The state of the system. -/
structure Sys where
  /-- `InitializeCriticalSection` has finished. -/
  mutexInit : Bool
  /-- `g_mutex_ready`. -/
  mutexReady : Bool
  /-- The thread inside of the critical section. -/
  owner : Option Party
  /-- `g_script_func`. -/
  scriptFunc : Option Symbol
  /-- The `TCCState`s that `tcc_new` made and `tcc_delete` has not got. -/
  live : List Nat
  /-- The next one `tcc_new` makes. -/
  fresh : Nat
  /-- Those for which `compile_program` has returned `TRUE`. -/
  succeeded : List Nat
  /-- The content of `move_code.c`. -/
  content : List UInt8
  /-- Changes of `move_code.c` that are still to be notified. -/
  pending : Nat
  /-- The directory is being watched. -/
  armed : Bool
  /-- A notification has been recorded that no wait has consumed. -/
  recorded : Bool
  /-- `path` is not null. -/
  path : Bool
  /-- `state`. -/
  state : Option Nat
  /-- `len` in `read_file`. -/
  len : Nat
  /-- What the last `read_file` returned in `str`, kept after `free`. -/
  str : Option (List UInt8)
  pc : CompilePc
  game : GamePc

/-- The program at its start, with some `move_code.c` in the directory. -/
def Sys.init (content : List UInt8) : Sys :=
  { mutexInit := false, mutexReady := false, owner := none, scriptFunc := none
    live := [], fresh := 0, succeeded := [], content := content, pending := 0
    armed := false, recorded := false, path := false, state := none, len := 0
    str := none, pc := .allocPath, game := .idle }

/-! ## Steps -/

/-- What `fread` puts into the zeroed buffer when the file has this content. -/
def readBuffer (content : List UInt8) (len : Nat) : List UInt8 :=
  content.take len ++ List.replicate (len - content.length) 0

/-- One step of `compile_thread`; `ok` is the outcome of the call it makes,
where there is one. -/
def stepCompiler (s : Sys) (ok : Bool) : Option Sys :=
  match s.pc with
  | .allocPath => some { s with path := ok, pc := .initMutex }
  | .initMutex => some { s with mutexInit := true, pc := .setReady }
  | .setReady => some { s with mutexReady := true, pc := .testPath }
  | .testPath =>
      some { s with pc := if s.path then .findFirst else .exitThread }
  | .findFirst =>
      if ok then some { s with armed := true, recorded := false, pc := .enter }
      else some { s with pc := .exitThread }
  | .enter =>
      match s.owner with
      | none => some { s with owner := some .compiler, pc := .clearFunc }
      | some _ => none
  | .clearFunc => some { s with scriptFunc := none, pc := .deleteState }
  | .deleteState =>
      match s.state with
      | some id =>
          some { s with live := s.live.erase id, state := none, pc := .newState }
      | none => some { s with pc := .newState }
  | .newState =>
      match s.state with
      | some _ => some { s with pc := .testState }
      | none =>
          if ok then
            some { s with
              live := s.fresh :: s.live
              fresh := s.fresh + 1
              state := some s.fresh
              pc := .testState }
          else some { s with pc := .testState }
  | .testState =>
      match s.state with
      | some _ => some { s with str := none, pc := .openFile }
      | none => some { s with pc := .leave }
  | .openFile => some { s with pc := if ok then .getFlen else .leave }
  | .getFlen => some { s with len := s.content.length, pc := .allocStr }
  | .allocStr => some { s with pc := if ok then .fread else .leave }
  | .fread =>
      some { s with
        str := some (readBuffer s.content s.len)
        pc := .compileString }
  -- `compile_program`, which refuses a null state or text
  | .compileString =>
      match s.state, s.str with
      | some _, some _ => some { s with pc := if ok then .relocate else .leave }
      | _, _ => some { s with pc := .leave }
  | .relocate =>
      match s.state with
      | some id =>
          if ok then
            some { s with succeeded := id :: s.succeeded, pc := .getSymbol }
          else some { s with pc := .leave }
      | none => some { s with pc := .leave }
  | .getSymbol =>
      match s.state, s.str with
      | some id, some code =>
          some { s with
            scriptFunc := if ok then some ⟨id, code⟩ else none
            pc := .leave }
      | _, _ => some { s with pc := .leave }
  | .leave => some { s with owner := none, pc := .findNext }
  | .findNext => some { s with pc := if ok then .wait else .exitThread }
  | .wait =>
      if ok then
        if s.recorded then some { s with recorded := false, pc := .enter }
        else none
      else some { s with pc := .exitThread }
  | .exitThread => some { s with armed := false, pc := .exited }
  | .exited => none

/-- One step of the game thread. -/
def stepGame (s : Sys) : Option Sys :=
  match s.game with
  | .idle => some { s with game := if s.mutexReady then .enter else .idle }
  | .enter =>
      match s.owner with
      | none => some { s with owner := some .game, game := .testFunc }
      | some _ => none
  | .testFunc =>
      match s.scriptFunc with
      | some _ => some { s with game := .loadFunc }
      | none => some { s with game := .leave }
  | .loadFunc => some { s with game := .calling s.scriptFunc }
  | .calling _ => some { s with game := .leave }
  | .leave => some { s with owner := none, game := .idle }

/-- What can happen next. -/
inductive Action where
  | compiler (ok : Bool)
  | game
  /-- An editor changes `move_code.c`. -/
  | write (content : List UInt8)
  /-- A change of `move_code.c` is notified. -/
  | notify
  /-- A change of something else in the directory is notified. -/
  | other

/-- One step of the system. -/
def step (s : Sys) : Action → Option Sys
  | .compiler ok => stepCompiler s ok
  | .game => stepGame s
  | .write content =>
      some { s with content := content, pending := s.pending + 1 }
  | .notify =>
      if 0 < s.pending then
        some { s with
          pending := s.pending - 1
          recorded := s.recorded || s.armed }
      else none
  | .other => some { s with recorded := s.recorded || s.armed }

/-! ## Program points -/

/-- `InitializeCriticalSection` lies behind the compile thread. -/
def CompilePc.started : CompilePc → Bool
  | .allocPath | .initMutex => false
  | _ => true

/-- The compile thread is between `EnterCriticalSection` and
`LeaveCriticalSection`. -/
def CompilePc.inside : CompilePc → Bool
  | .clearFunc | .deleteState | .newState | .testState | .openFile | .getFlen
  | .allocStr | .fread | .compileString | .relocate | .getSymbol | .leave => true
  | _ => false

/-- `g_script_func` has been cleared and not been set again. -/
def CompilePc.cleared : CompilePc → Bool
  | .deleteState | .newState | .testState | .openFile | .getFlen | .allocStr
  | .fread | .compileString | .relocate | .getSymbol => true
  | _ => false

/-- The game thread is between `EnterCriticalSection` and
`LeaveCriticalSection`. -/
def GamePc.inside : GamePc → Bool
  | .testFunc | .loadFunc | .calling _ | .leave => true
  | _ => false

end Bucktoot.Ports.HotReload
