import Bucktoot.Verified.StepSystem
import Bucktoot.Verified.Sweep
import Bucktoot.Ports.DeviceBuffer
import Bucktoot.Ports.MixerSafety

/-!
# The two threads of `wave_player.c`

The audio driver calls `audio_callback` in a thread of its own while the main
thread starts and stops voices and changes `g_speed`.  The lists are touched
between `enter_mutex` and `leave_mutex` only, slot by slot and frame by frame;
`g_speed` is changed without the mutex.

* `Sys`, `step` — one step for every slot a loop looks at and for every pass
  of the loop in `mix_sample`;
* `finished` — the pool when whoever is inside has gone through to its end;
* `effectOf` — a function takes effect in the step in which it enters the
  mutex;
* `pool_is_atomic` — in a run in which `g_speed` is not changed in the middle
  of a callback, the pool and the output are what these effects make of them
  one after the other, and every call has its effect before it returns.
-/

namespace Bucktoot.Ports.AudioThreads

open Bucktoot.Verified.StepSystem
open Bucktoot.Verified.FirstSlot
open Bucktoot.Verified.Sweep
open Bucktoot.Ports.Mixer
open Bucktoot.Ports.VoicePool
open Bucktoot.Ports.ReadWave (WaveFile)

/-! ## The system -/

/-- The threads that enter the mutex. -/
inductive Party where
  | main
  | callback
  deriving DecidableEq

/-- Where the main thread stands: in `add_sample`, in the loop of `play_index`
that counts the voices, or in `clear_all`. -/
inductive MainPc (F : Type) where
  | outside
  | addEnter (i loop : Int) (wav : WaveSample F)
  | adding (wav : WaveSample F) (k : Nat)
  | addLeave
  | countEnter
  | counting (k : Nat)
  | clearEnter
  | clearing (k : Nat)
  | leave

/-- Where `audio_callback` stands: in front of slot `j` in the loop of
`mix_samples`, or in front of offset `i` in the loop of `mix_sample` for it. -/
inductive CallbackPc where
  | outside
  | enter (dstSize : Nat)
  | slot (dst : List UInt8) (j : Nat)
  | pass (dst : List UInt8) (j i : Nat)
  | write (dst : List UInt8)
  | leave
  deriving DecidableEq

/-- The pool, the mutex, the two threads, and the buffers that have been given
to `waveOutWrite`. -/
structure Sys (F : Type) where
  pool : World F
  owner : Option Party
  main : MainPc F
  callback : CallbackPc
  written : List (List UInt8)

/-- What can happen next: the main thread calls a function, the driver calls
`audio_callback` with a buffer, or one of them goes on. -/
inductive Action (F : Type) where
  | play (i loop : Int)
  | clear
  | speed (mod : F)
  | main
  | buffer (dstSize : Nat)
  | callback

section Model

variable {F : Type} [Add F] [Sub F] [Mul F] [Div F] [IntCast F] [LT F] [LE F]
  [DecidableLT F] [DecidableLE F] [Double F]

def Sys.init (g : Globals F) (mywavs : Fin 100 → WaveFile) : Sys F :=
  { pool := World.init g mywavs, owner := none, main := .outside
    callback := .outside, written := [] }

/-- The system with another `g_sample_list`. -/
def Sys.withList (s : Sys F) (list : List (WaveSample F)) : Sys F :=
  { s with pool := { s.pool with list := list } }

/-- The main thread goes on. -/
def stepMain (s : Sys F) : Option (Sys F) :=
  match s.main with
  | .outside => none
  | .addEnter _ _ wav =>
      match s.owner with
      | none => some { s with owner := some .main, main := .adding wav 0 }
      | some _ => none
  | .adding wav k =>
      match s.pool.list[k]? with
      | none => some { s with main := .addLeave }
      | some tmp =>
          if tmp.play = 0 then
            some { s.withList (s.pool.list.set k { wav with play := 1 }) with
              main := .addLeave }
          else some { s with main := .adding wav (k + 1) }
  | .addLeave => some { s with owner := none, main := .countEnter }
  | .countEnter =>
      match s.owner with
      | none => some { s with owner := some .main, main := .counting 0 }
      | some _ => none
  | .counting k =>
      match s.pool.list[k]? with
      | none => some { s with main := .leave }
      | some _ => some { s with main := .counting (k + 1) }
  | .clearEnter =>
      match s.owner with
      | none => some { s with owner := some .main, main := .clearing 0 }
      | some _ => none
  | .clearing k =>
      match s.pool.list[k]? with
      | none => some { s with main := .leave }
      | some tmp =>
          some { s.withList (s.pool.list.set k { tmp with play := 0 }) with
            main := .clearing (k + 1) }
  | .leave => some { s with owner := none, main := .outside }

/-- `frame_size` of a voice. -/
def sizeOf (s : WaveSample F) : F := ((s.bytes * s.channels : Int) : F)

/-- `frame_count` of a voice. -/
def countOf (s : WaveSample F) : F := (s.dataLen : F) / sizeOf s

/-- The callback goes on. -/
def stepCallback (s : Sys F) : Option (Sys F) :=
  match s.callback with
  | .outside => none
  | .enter dstSize =>
      match s.owner with
      | none =>
          some { s with
            owner := some .callback
            callback := .slot (List.replicate dstSize 0) 0 }
      | some _ => none
  | .slot dst j =>
      match s.pool.list[j]? with
      | none => some { s with callback := .write dst }
      | some sample =>
          if sample.play = 0 ∨ sample.bytes * sample.channels ≤ 0 then
            some { s with callback := .slot dst (j + 1) }
          else
            let sample' :=
              clampCurrentFrame sample (sizeOf sample) (countOf sample)
            some { s.withList (s.pool.list.set j sample') with
              callback :=
                if sample'.play = 0 then .slot dst (j + 1) else .pass dst j 0 }
  | .pass dst j i =>
      match s.pool.list[j]? with
      | none => none
      | some sample =>
          if i < dst.length then
            let m := mixFrame s.pool.globals (sample.bytes * sample.channels)
              (sizeOf sample) (countOf sample) i ⟨dst, sample, [], [], []⟩
            some { s.withList (s.pool.list.set j m.sample) with
              callback :=
                if m.sample.play = 0 then .slot m.dst (j + 1)
                else .pass m.dst j
                  (i + s.pool.globals.bytes * s.pool.globals.channels) }
          else some { s with callback := .slot dst (j + 1) }
  | .write dst => some { s with written := s.written ++ [dst], callback := .leave }
  | .leave => some { s with owner := none, callback := .outside }

/-- One step. -/
def step (s : Sys F) : Action F → Option (Sys F)
  | .play i loop =>
      match s.main with
      | .outside =>
          match s.pool.fileAt i with
          | none => some s
          | some wf =>
              (startVoice s.pool.globals wf loop).map
                fun ws => { s with main := .addEnter i loop ws }
      | _ => none
  | .clear =>
      match s.main with
      | .outside => some { s with main := .clearEnter }
      | _ => none
  | .speed mod =>
      match s.main with
      | .outside => some { s with pool := modSpeed s.pool mod }
      | _ => none
  | .main => stepMain s
  | .buffer dstSize =>
      match s.callback with
      | .outside => some { s with callback := .enter dstSize }
      | _ => none
  | .callback => stepCallback s

/-! ## The same with every function as one step -/

/-- What an operation of the pool gives to `waveOutWrite`. -/
def outputOf (w : World F) : Op F → List (List UInt8)
  | .callback size => [(mixSamples w.globals size w.list).1]
  | _ => []

/-- The pool and what has been written, one operation at a time. -/
def poolStep (p : World F × List (List UInt8)) (op : Op F) :
    Option (World F × List (List UInt8)) :=
  (VoicePool.step p.1 op).map fun w => (w, p.2 ++ outputOf p.1 op)

/-- The operation that is called in a step. -/
def callOf : Action F → List (Op F)
  | .play i loop => [.play i loop]
  | .clear => [.clear]
  | .speed mod => [.speed mod]
  | .buffer dstSize => [.callback dstSize]
  | .main | .callback => []

/-- The operation of the main thread that has been called and has not entered
the mutex. -/
def MainPc.waiting : MainPc F → List (Op F)
  | .addEnter i loop _ => [.play i loop]
  | .clearEnter => [.clear]
  | _ => []

/-- The callback that has been called and has not entered the mutex. -/
def CallbackPc.waiting : CallbackPc → List (Op F)
  | .enter dstSize => [.callback dstSize]
  | _ => []

/-- The operation that takes effect in a step: what enters the mutex, and what
does not need it. -/
def effectOf (s : Sys F) : Action F → List (Op F)
  | .play i loop =>
      match s.pool.fileAt i with
      | none => [.play i loop]
      | some _ => []
  | .speed mod => [.speed mod]
  | .main => s.main.waiting
  | .callback => s.callback.waiting
  | .clear | .buffer _ => []

end Model

/-- The operation belongs to the audio thread. -/
def isCallback {F : Type} : Op F → Bool
  | .callback _ => true
  | .play _ _ | .clear | .speed _ => false

/-- The main thread is between `enter_mutex` and `leave_mutex`. -/
def MainPc.inside {F : Type} : MainPc F → Bool
  | .adding _ _ | .addLeave | .counting _ | .clearing _ | .leave => true
  | _ => false

/-- The callback is between `enter_mutex` and `leave_mutex`. -/
def CallbackPc.inside : CallbackPc → Bool
  | .slot _ _ | .pass _ _ _ | .write _ | .leave => true
  | _ => false

/-- The callback is in the loops of the mixer. -/
def CallbackPc.mixing : CallbackPc → Bool
  | .slot _ _ | .pass _ _ _ => true
  | _ => false

/-! ## The rest of a loop -/

section Rest

variable {F : Type} [Add F] [Sub F] [Mul F] [Div F] [IntCast F] [LT F] [LE F]
  [DecidableLT F] [DecidableLE F] [Double F]

/-- A pass of `mix_sample` at offset `i` of the buffer. -/
def framePass (g : Globals F) (dst : List UInt8) (sample : WaveSample F)
    (i : Nat) : Mix F :=
  mixFrame g (sample.bytes * sample.channels) (sizeOf sample) (countOf sample)
    i ⟨dst, sample, [], [], []⟩

/-- The passes of `mix_sample` over a voice from offset `i` on. -/
def passes (g : Globals F) (dst : List UInt8) (s : WaveSample F) (i : Nat) :
    Mix F :=
  mixLoop g (s.bytes * s.channels) (sizeOf s) (countOf s) (dst.length - i) i
    ⟨dst, s, [], [], []⟩

/-- The list when the main thread has left the mutex. -/
def finishMain : MainPc F → List (WaveSample F) → List (WaveSample F)
  | .adding wav k, list => sweep (fun rest => addSample rest wav) k list
  | .clearing k, list => sweep (List.map fun s => { s with play := 0 }) k list
  | _, list => list

/-- The list when the callback has left the mutex, and what it will still
write. -/
def finishCallback (g : Globals F) :
    CallbackPc → List (WaveSample F) → List (WaveSample F) × List (List UInt8)
  | .slot dst j, list =>
      (sweep (fun rest => (mixList g dst rest).2) j list,
        [(mixList g dst (list.drop j)).1])
  | .pass dst j i, list =>
      match list[j]? with
      | none => (list, [])
      | some s =>
          let m := passes g dst s i
          let out := mixList g m.dst (list.drop (j + 1))
          (list.take j ++ m.sample :: out.2, [out.1])
  | .write dst, list => (list, [dst])
  | _, list => (list, [])

/-- The pool and the output when whoever is inside has gone through to its
end. -/
def finished (s : Sys F) : World F × List (List UInt8) :=
  let out := finishCallback s.pool.globals s.callback
    (finishMain s.main s.pool.list)
  ({ s.pool with list := out.1 }, s.written ++ out.2)

/-- Two states of the loop in `mix_sample` with the same buffer and voice. -/
def SameOut (m m' : Mix F) : Prop := m.dst = m'.dst ∧ m.sample = m'.sample

/-- As many passes as the buffer has bytes left are enough, and what has been
recorded of them does not matter. -/
theorem mixLoop_same {g : Globals F} (hg : 0 < g.bytes * g.channels)
    {iframeSize : Int} {frameSize frameCount : F} {fuel : Nat} :
    ∀ {fuel' i : Nat} {m m' : Mix F}, SameOut m m' →
      m.dst.length - i ≤ fuel → m.dst.length - i ≤ fuel' →
      SameOut (mixLoop g iframeSize frameSize frameCount fuel i m)
        (mixLoop g iframeSize frameSize frameCount fuel' i m') := by
  have hstop {n i : Nat} {m : Mix F} (hend : ¬ i < m.dst.length) :
      mixLoop g iframeSize frameSize frameCount n i m = m := by
    cases n with
    | zero => rfl
    | succ n =>
        rw [mixLoop]
        exact if_neg hend
  induction fuel with
  | zero =>
      intro fuel' i m m' hsame hfuel _
      have hend : ¬ i < m.dst.length := by omega
      rw [hstop hend, hstop (by rw [← hsame.1]; exact hend)]
      exact hsame
  | succ fuel ih =>
      intro fuel' i m m' hsame hfuel hfuel'
      by_cases hi : i < m.dst.length
      · cases fuel' with
        | zero => omega
        | succ fuel' =>
            have hframe : SameOut
                (mixFrame g iframeSize frameSize frameCount i m)
                (mixFrame g iframeSize frameSize frameCount i m') := by
              obtain ⟨hdst, hsample⟩ := hsame
              simp only [SameOut, mixFrame, hdst, hsample, and_self]
            have hlen := DeviceBuffer.mixFrame_length g iframeSize frameSize
              frameCount i m
            have hi' : i < m'.dst.length := by
              rw [← hsame.1]
              exact hi
            rw [mixLoop, mixLoop, if_pos hi, if_pos hi']
            dsimp only
            rw [← hframe.2]
            by_cases hend :
                (mixFrame g iframeSize frameSize frameCount i m).sample.play = 0
            · rw [if_pos hend, if_pos hend]
              exact hframe
            · rw [if_neg hend, if_neg hend]
              exact ih hframe (by omega) (by omega)
      · rw [hstop hi, hstop (by rw [← hsame.1]; exact hi)]
        exact hsame

section Passes

variable {g : Globals F} {dst : List UInt8} {s : WaveSample F} {i : Nat}

/-- Behind the end of the buffer. -/
theorem passes_end (h : ¬ i < dst.length) :
    passes g dst s i = ⟨dst, s, [], [], []⟩ := by
  have hzero : dst.length - i = 0 := by omega
  rw [passes, hzero]
  rfl

/-- Mixing does not change the sizes of a voice. -/
theorem passes_continues (g : Globals F) (dst : List UInt8)
    {t : WaveSample F} (hc : Continues s t) (i : Nat) :
    passes g dst t i = mixLoop g (s.bytes * s.channels) (sizeOf s) (countOf s)
      (dst.length - i) i ⟨dst, t, [], [], []⟩ := by
  have hsize : sizeOf t = sizeOf s := by
    rw [hc.fixed]
    rfl
  have hcount : countOf t = countOf s := by
    rw [hc.fixed]
    rfl
  have hframe : t.bytes * t.channels = s.bytes * s.channels := by
    rw [hc.fixed]
  rw [passes, hsize, hcount, hframe]

/-- One pass, and then the others. -/
theorem passes_step (hg : 0 < g.bytes * g.channels) (h : i < dst.length)
    {m : Mix F} (hm : m = framePass g dst s i) :
    SameOut (passes g dst s i)
      (if m.sample.play = 0 then m
        else passes g m.dst m.sample (i + g.bytes * g.channels)) := by
  obtain ⟨fuel, hfuel⟩ : ∃ fuel, dst.length - i = fuel + 1 :=
    ⟨dst.length - i - 1, by omega⟩
  have hlen : m.dst.length = dst.length := by
    rw [hm]
    exact DeviceBuffer.mixFrame_length ..
  have hc : Continues s m.sample := by
    rw [hm]
    exact stepFrame_continues g (sizeOf s) (countOf s) s
  rw [passes, hfuel, mixLoop, if_pos h]
  change SameOut (if (framePass g dst s i).sample.play = 0 then
    framePass g dst s i else mixLoop _ _ _ _ _ _ (framePass g dst s i)) _
  rw [← hm]
  split
  · exact ⟨rfl, rfl⟩
  · have hleft : m.dst.length - (i + g.bytes * g.channels) ≤ fuel := by omega
    rw [passes_continues g m.dst hc]
    exact mixLoop_same hg ⟨rfl, rfl⟩ hleft (Nat.le_refl _)

end Passes

/-- What `mix_samples` makes of a voice that plays: nothing, if it has no
frame size or ends at once, and otherwise the passes. -/
theorem mixSample_passes (g : Globals F) (dst : List UInt8)
    {s : WaveSample F} (hsize : ¬ s.bytes * s.channels ≤ 0) :
    let s' := clampCurrentFrame s (sizeOf s) (countOf s)
    mixSample g dst s =
      if s'.play = 0 then ⟨dst, s', [], [], []⟩ else passes g dst s' 0 := by
  intro s'
  have hc : Continues s s' := by
    show Continues s (clampCurrentFrame s (sizeOf s) (countOf s))
    rw [countOf, clampCurrentFrame_eq_checkLoop]
    exact checkLoop_continues s (sizeOf s)
  rw [mixSample, if_neg hsize]
  show (if s'.play = 0 then _ else _) = _
  split
  · rfl
  · rw [passes_continues g dst hc]
    rfl

end Rest

/-! ## One step -/

section Steps

variable {F : Type} {s s' : Sys F}

/-- A step of the main thread inside of a function. -/
inductive MainStep (s : Sys F) : Sys F → Prop where
  | addLock (i loop : Int) (wav : WaveSample F)
      (hpc : s.main = .addEnter i loop wav) (hfree : s.owner = none) :
      MainStep s { s with owner := some .main, main := .adding wav 0 }
  | addFull (wav : WaveSample F) (k : Nat) (hpc : s.main = .adding wav k)
      (hslot : s.pool.list[k]? = none) : MainStep s { s with main := .addLeave }
  | addTake (wav tmp : WaveSample F) (k : Nat) (hpc : s.main = .adding wav k)
      (hslot : s.pool.list[k]? = some tmp) (hfree : tmp.play = 0) :
      MainStep s
        { s.withList (s.pool.list.set k { wav with play := 1 }) with
          main := .addLeave }
  | addNext (wav tmp : WaveSample F) (k : Nat) (hpc : s.main = .adding wav k)
      (hslot : s.pool.list[k]? = some tmp) (hplay : tmp.play ≠ 0) :
      MainStep s { s with main := .adding wav (k + 1) }
  | addLeave (hpc : s.main = .addLeave) :
      MainStep s { s with owner := none, main := .countEnter }
  | countLock (hpc : s.main = .countEnter) (hfree : s.owner = none) :
      MainStep s { s with owner := some .main, main := .counting 0 }
  | countEnd (k : Nat) (hpc : s.main = .counting k) :
      MainStep s { s with main := .leave }
  | countNext (k : Nat) (hpc : s.main = .counting k) :
      MainStep s { s with main := .counting (k + 1) }
  | clearLock (hpc : s.main = .clearEnter) (hfree : s.owner = none) :
      MainStep s { s with owner := some .main, main := .clearing 0 }
  | clearEnd (k : Nat) (hpc : s.main = .clearing k)
      (hslot : s.pool.list[k]? = none) : MainStep s { s with main := .leave }
  | clearSlot (tmp : WaveSample F) (k : Nat) (hpc : s.main = .clearing k)
      (hslot : s.pool.list[k]? = some tmp) :
      MainStep s
        { s.withList (s.pool.list.set k { tmp with play := 0 }) with
          main := .clearing (k + 1) }
  | leave (hpc : s.main = .leave) :
      MainStep s { s with owner := none, main := .outside }

theorem main_step (h : stepMain s = some s') : MainStep s s' := by
  cases hpc : s.main
  all_goals simp only [stepMain, hpc] at h
  case outside => cases h
  case addEnter i loop wav =>
    split at h
    · rename_i hfree
      cases h
      exact .addLock i loop wav hpc hfree
    · cases h
  case adding wav k =>
    split at h
    · rename_i hslot
      cases h
      exact .addFull wav k hpc hslot
    · rename_i tmp hslot
      split at h
      · rename_i hfree
        cases h
        exact .addTake wav tmp k hpc hslot hfree
      · rename_i hplay
        cases h
        exact .addNext wav tmp k hpc hslot hplay
  case addLeave =>
    cases h
    exact .addLeave hpc
  case countEnter =>
    split at h
    · rename_i hfree
      cases h
      exact .countLock hpc hfree
    · cases h
  case counting k =>
    split at h
    · cases h
      exact .countEnd k hpc
    · cases h
      exact .countNext k hpc
  case clearEnter =>
    split at h
    · rename_i hfree
      cases h
      exact .clearLock hpc hfree
    · cases h
  case clearing k =>
    split at h
    · rename_i hslot
      cases h
      exact .clearEnd k hpc hslot
    · rename_i tmp hslot
      cases h
      exact .clearSlot tmp k hpc hslot
  case leave =>
    cases h
    exact .leave hpc

variable [Add F] [Sub F] [Mul F] [Div F] [IntCast F] [LT F] [LE F]
  [DecidableLT F] [DecidableLE F] [Double F]

/-- A step of the callback. -/
inductive CallbackStep (s : Sys F) : Sys F → Prop where
  | lock (dstSize : Nat) (hpc : s.callback = .enter dstSize)
      (hfree : s.owner = none) :
      CallbackStep s { s with
        owner := some .callback
        callback := .slot (List.replicate dstSize 0) 0 }
  | slotsEnd (dst : List UInt8) (j : Nat) (hpc : s.callback = .slot dst j)
      (hslot : s.pool.list[j]? = none) :
      CallbackStep s { s with callback := .write dst }
  | slotSkip (dst : List UInt8) (j : Nat) (sample : WaveSample F)
      (hpc : s.callback = .slot dst j)
      (hslot : s.pool.list[j]? = some sample)
      (hskip : sample.play = 0 ∨ sample.bytes * sample.channels ≤ 0) :
      CallbackStep s { s with callback := .slot dst (j + 1) }
  | slotCheck (dst : List UInt8) (j : Nat) (sample sample' : WaveSample F)
      (hpc : s.callback = .slot dst j)
      (hslot : s.pool.list[j]? = some sample) (hplay : sample.play ≠ 0)
      (hsize : ¬ sample.bytes * sample.channels ≤ 0)
      (hcheck : sample' =
        clampCurrentFrame sample (sizeOf sample) (countOf sample)) :
      CallbackStep s { s.withList (s.pool.list.set j sample') with
        callback :=
          if sample'.play = 0 then .slot dst (j + 1) else .pass dst j 0 }
  | pass (dst : List UInt8) (j i : Nat) (sample : WaveSample F) (m : Mix F)
      (hpc : s.callback = .pass dst j i)
      (hslot : s.pool.list[j]? = some sample) (hi : i < dst.length)
      (hm : m = framePass s.pool.globals dst sample i) :
      CallbackStep s { s.withList (s.pool.list.set j m.sample) with
        callback :=
          if m.sample.play = 0 then .slot m.dst (j + 1)
          else .pass m.dst j
            (i + s.pool.globals.bytes * s.pool.globals.channels) }
  | passesEnd (dst : List UInt8) (j i : Nat) (sample : WaveSample F)
      (hpc : s.callback = .pass dst j i)
      (hslot : s.pool.list[j]? = some sample) (hi : ¬ i < dst.length) :
      CallbackStep s { s with callback := .slot dst (j + 1) }
  | write (dst : List UInt8) (hpc : s.callback = .write dst) :
      CallbackStep s { s with
        written := s.written ++ [dst]
        callback := .leave }
  | leave (hpc : s.callback = .leave) :
      CallbackStep s { s with owner := none, callback := .outside }

theorem callback_step (h : stepCallback s = some s') : CallbackStep s s' := by
  cases hpc : s.callback
  all_goals simp only [stepCallback, hpc] at h
  case outside => cases h
  case enter dstSize =>
    split at h
    · rename_i hfree
      cases h
      exact .lock dstSize hpc hfree
    · cases h
  case slot dst j =>
    split at h
    · rename_i hslot
      cases h
      exact .slotsEnd dst j hpc hslot
    · rename_i sample hslot
      split at h
      · rename_i hskip
        cases h
        exact .slotSkip dst j sample hpc hslot hskip
      · rename_i hskip
        rw [not_or] at hskip
        cases h
        exact .slotCheck dst j sample _ hpc hslot hskip.1 hskip.2 rfl
  case pass dst j i =>
    split at h
    · cases h
    · rename_i sample hslot
      split at h
      · rename_i hi
        cases h
        exact .pass dst j i sample _ hpc hslot hi rfl
      · rename_i hi
        cases h
        exact .passesEnd dst j i sample hpc hslot hi
  case write dst =>
    cases h
    exact .write dst hpc
  case leave =>
    cases h
    exact .leave hpc

end Steps

/-! ## What holds in every state -/

section Locks

variable {F : Type}

/-- The mutex is held by whoever is inside. -/
structure Locks (s : Sys F) : Prop where
  main : s.main.inside = true ↔ s.owner = some .main
  callback : s.callback.inside = true ↔ s.owner = some .callback

theorem Locks.callback_outside {s : Sys F} (h : Locks s)
    (howner : s.owner ≠ some .callback) : s.callback.inside = false := by
  cases hin : s.callback.inside with
  | false => rfl
  | true => exact absurd (h.callback.1 hin) howner

theorem Locks.main_outside {s : Sys F} (h : Locks s)
    (howner : s.owner ≠ some .main) : s.main.inside = false := by
  cases hin : s.main.inside with
  | false => rfl
  | true => exact absurd (h.main.1 hin) howner

variable {s s' : Sys F}

theorem locks_main (hi : Locks s) (h : stepMain s = some s') : Locks s' := by
  obtain ⟨hmain, hcallback⟩ := hi
  cases main_step h with
  | addLock _ _ _ hpc hfree | countLock hpc hfree | clearLock hpc hfree =>
      rw [hfree] at hcallback
      refine ⟨by simp [MainPc.inside], ?_⟩
      show s.callback.inside = true ↔ some Party.main = some .callback
      simpa using hcallback
  | addFull _ _ hpc | addTake _ _ _ hpc | addNext _ _ _ hpc | countEnd _ hpc
  | countNext _ hpc | clearEnd _ hpc | clearSlot _ _ hpc =>
      rw [hpc] at hmain
      exact ⟨hmain, hcallback⟩
  | addLeave hpc | leave hpc =>
      rw [hpc] at hmain
      have howner := hmain.1 rfl
      rw [howner] at hcallback
      refine ⟨by simp [MainPc.inside], ?_⟩
      show s.callback.inside = true ↔ none = some Party.callback
      simpa using hcallback

variable [Add F] [Sub F] [Mul F] [Div F] [IntCast F] [LT F] [LE F]
  [DecidableLT F] [DecidableLE F] [Double F]

theorem locks_callback (hi : Locks s) (h : stepCallback s = some s') :
    Locks s' := by
  obtain ⟨hmain, hcallback⟩ := hi
  cases callback_step h with
  | lock _ hpc hfree =>
      rw [hfree] at hmain
      refine ⟨?_, by simp [CallbackPc.inside]⟩
      show s.main.inside = true ↔ some Party.callback = some .main
      simpa using hmain
  | slotsEnd _ _ hpc | slotSkip _ _ _ hpc | passesEnd _ _ _ _ hpc
  | write _ hpc =>
      rw [hpc] at hcallback
      exact ⟨hmain, hcallback⟩
  | slotCheck _ _ _ _ hpc =>
      rw [hpc] at hcallback
      refine ⟨hmain, ?_⟩
      dsimp only [Sys.withList]
      split <;> exact hcallback
  | pass _ _ _ _ _ hpc =>
      rw [hpc] at hcallback
      refine ⟨hmain, ?_⟩
      dsimp only [Sys.withList]
      split <;> exact hcallback
  | leave hpc =>
      rw [hpc] at hcallback
      have howner := hcallback.1 rfl
      rw [howner] at hmain
      refine ⟨?_, by simp [CallbackPc.inside]⟩
      show s.main.inside = true ↔ none = some Party.main
      simpa using hmain

theorem locks_step {a : Action F} (hi : Locks s) (h : step s a = some s') :
    Locks s' := by
  obtain ⟨hmain, hcallback⟩ := hi
  cases a with
  | main => exact locks_main ⟨hmain, hcallback⟩ h
  | callback => exact locks_callback ⟨hmain, hcallback⟩ h
  | play i loop =>
      simp only [step] at h
      split at h
      · rename_i hpc
        split at h
        · cases h
          exact ⟨hmain, hcallback⟩
        · obtain ⟨ws, -, rfl⟩ := Option.map_eq_some_iff.1 h
          rw [hpc] at hmain
          exact ⟨hmain, hcallback⟩
      · cases h
  | clear | speed mod =>
      simp only [step] at h
      split at h
      · rename_i hpc
        cases h
        rw [hpc] at hmain
        exact ⟨by simpa [hpc, MainPc.inside] using hmain, hcallback⟩
      · cases h
  | buffer dstSize =>
      simp only [step] at h
      split at h
      · rename_i hpc
        cases h
        rw [hpc] at hcallback
        exact ⟨hmain, hcallback⟩
      · cases h

end Locks

/-! ## Every step in the middle of a function is none of the pool -/

section Atomic

variable {F : Type} {s s' : Sys F}

theorem finishMain_outside {pc : MainPc F} (h : pc.inside = false)
    (list : List (WaveSample F)) : finishMain pc list = list := by
  cases pc <;> first | rfl | cases h

theorem MainPc.waiting_of_inside {pc : MainPc F} (h : pc.inside = true) :
    pc.waiting = [] := by
  cases pc <;> first | rfl | cases h

theorem CallbackPc.waiting_of_inside {pc : CallbackPc}
    (h : pc.inside = true) : pc.waiting (F := F) = [] := by
  cases pc <;> first | rfl | cases h

theorem MainPc.waiting_main (pc : MainPc F) :
    pc.waiting.filter (fun op => !isCallback op) = pc.waiting := by
  cases pc <;> rfl

theorem MainPc.waiting_callback (pc : MainPc F) :
    pc.waiting.filter isCallback = [] := by
  cases pc <;> rfl

theorem CallbackPc.waiting_main (pc : CallbackPc) :
    (pc.waiting (F := F)).filter (fun op => !isCallback op) = [] := by
  cases pc <;> rfl

theorem CallbackPc.waiting_callback (pc : CallbackPc) :
    (pc.waiting (F := F)).filter isCallback = pc.waiting := by
  cases pc <;> rfl

theorem fileAt_congr {w w' : World F} (h : w'.mywavs = w.mywavs) (i : Int) :
    w'.fileAt i = w.fileAt i := by
  rw [World.fileAt, World.fileAt, h]

theorem main_frame (h : stepMain s = some s') :
    s'.pool.globals = s.pool.globals ∧ s'.pool.mywavs = s.pool.mywavs ∧
      s'.callback = s.callback ∧
      ∀ i loop wav, s'.main ≠ .addEnter i loop wav := by
  cases main_step h
  all_goals refine ⟨rfl, rfl, rfl, ?_⟩
  all_goals
    intro i loop wav henter
    cases henter

/-- A list with one more pass of the main thread behind it. -/
theorem finishMain_step (h : stepMain s = some s')
    (hinside : s.main.inside = true) :
    finishMain s'.main s'.pool.list = finishMain s.main s.pool.list ∧
      s'.pool.globals = s.pool.globals ∧ s'.pool.mywavs = s.pool.mywavs ∧
      s'.callback = s.callback ∧ s'.written = s.written := by
  cases main_step h with
  | addLock _ _ _ hpc | countLock hpc | clearLock hpc =>
      rw [hpc] at hinside
      cases hinside
  | addFull wav k hpc hslot =>
      refine ⟨?_, rfl, rfl, rfl, rfl⟩
      rw [hpc]
      exact (sweep_end rfl hslot).symm
  | addTake wav tmp k hpc hslot hfree =>
      refine ⟨?_, rfl, rfl, rfl, rfl⟩
      rw [hpc]
      show s.pool.list.set k _ = sweep _ k s.pool.list
      rw [sweep_slot _ hslot, fillFirst, if_pos hfree, set_eq_sweep hslot]
  | addNext wav tmp k hpc hslot hplay =>
      refine ⟨?_, rfl, rfl, rfl, rfl⟩
      rw [hpc]
      show sweep _ (k + 1) s.pool.list = sweep _ k s.pool.list
      rw [sweep_skip _ hslot, sweep_slot _ hslot, fillFirst, if_neg hplay]
  | addLeave hpc | countEnd _ hpc | countNext _ hpc | leave hpc =>
      rw [hpc]
      exact ⟨rfl, rfl, rfl, rfl, rfl⟩
  | clearEnd k hpc hslot =>
      refine ⟨?_, rfl, rfl, rfl, rfl⟩
      rw [hpc]
      exact (sweep_end rfl hslot).symm
  | clearSlot tmp k hpc hslot =>
      refine ⟨?_, rfl, rfl, rfl, rfl⟩
      rw [hpc]
      show sweep _ (k + 1) (s.pool.list.set k _) = sweep _ k s.pool.list
      rw [sweep_set _ hslot, sweep_slot _ hslot, List.map_cons]

variable [Add F] [Sub F] [Mul F] [Div F] [IntCast F] [LT F] [LE F]
  [DecidableLT F] [DecidableLE F] [Double F]

theorem finishCallback_outside {pc : CallbackPc} (h : pc.inside = false)
    (g : Globals F) (list : List (WaveSample F)) :
    finishCallback g pc list = (list, []) := by
  cases pc <;> first | rfl | cases h

/-- While the callback is outside. -/
theorem finished_of_outside (h : s.callback.inside = false) :
    finished s =
      ({ s.pool with list := finishMain s.main s.pool.list }, s.written) := by
  rw [finished, finishCallback_outside h, List.append_nil]

/-- The rest of `mix_samples`, started in front of a slot. -/
theorem finishCallback_slot (g : Globals F) (dst : List UInt8) (j : Nat)
    {list : List (WaveSample F)} {sample : WaveSample F}
    (hslot : list[j]? = some sample) :
    finishCallback g (.slot dst j) list =
      let m := if sample.play ≠ 0 then mixSample g dst sample
        else ⟨dst, sample, [], [], []⟩
      let out := mixList g m.dst (list.drop (j + 1))
      (list.take j ++ m.sample :: out.2, [out.1]) := by
  have hcons : list.drop j = sample :: list.drop (j + 1) := by
    obtain ⟨hlt, rfl⟩ := List.getElem?_eq_some_iff.1 hslot
    exact List.drop_eq_getElem_cons hlt
  rw [finishCallback, sweep_slot _ hslot, hcons]
  dsimp only
  rw [mixList]
  split <;> rfl

/-- The rest of it, started behind a slot. -/
theorem finishCallback_skip (g : Globals F) (dst : List UInt8) (j : Nat)
    {list : List (WaveSample F)} {sample : WaveSample F}
    (hslot : list[j]? = some sample) :
    finishCallback g (.slot dst (j + 1)) list =
      (list.take j ++ sample :: (mixList g dst (list.drop (j + 1))).2,
        [(mixList g dst (list.drop (j + 1))).1]) := by
  rw [finishCallback, sweep_skip _ hslot]

/-- The rest of it, started behind a slot that was written to. -/
theorem finishCallback_next (g : Globals F) (dst : List UInt8) (j : Nat)
    {list : List (WaveSample F)} {sample : WaveSample F}
    (hslot : list[j]? = some sample) (sample' : WaveSample F) :
    finishCallback g (.slot dst (j + 1)) (list.set j sample') =
      (list.take j ++ sample' :: (mixList g dst (list.drop (j + 1))).2,
        [(mixList g dst (list.drop (j + 1))).1]) := by
  rw [finishCallback, sweep_set _ hslot,
    List.drop_set_of_lt (Nat.lt_succ_self j)]

/-- The rest of it, started in the middle of a voice. -/
theorem finishCallback_pass (g : Globals F) (dst : List UInt8) (j i : Nat)
    {list : List (WaveSample F)} {sample : WaveSample F}
    (hslot : list[j]? = some sample) :
    finishCallback g (.pass dst j i) list =
      let m := passes g dst sample i
      let out := mixList g m.dst (list.drop (j + 1))
      (list.take j ++ m.sample :: out.2, [out.1]) := by
  rw [finishCallback, hslot]

/-- The rest of it, started in the middle of a voice that was written to. -/
theorem finishCallback_passSet (g : Globals F) (dst : List UInt8) (j i : Nat)
    {list : List (WaveSample F)} {sample : WaveSample F}
    (hslot : list[j]? = some sample) (sample' : WaveSample F) :
    finishCallback g (.pass dst j i) (list.set j sample') =
      let m := passes g dst sample' i
      let out := mixList g m.dst (list.drop (j + 1))
      (list.take j ++ m.sample :: out.2, [out.1]) := by
  have hlt := (List.getElem?_eq_some_iff.1 hslot).1
  rw [finishCallback_pass g dst j i (List.getElem?_set_self hlt),
    List.take_set_of_le (Nat.le_refl j),
    List.drop_set_of_lt (Nat.lt_succ_self j)]

/-- A step of the callback inside of the mutex does not change what the list
will be and what will have been written. -/
theorem finishCallback_step
    (hg : 0 < s.pool.globals.bytes * s.pool.globals.channels)
    (h : stepCallback s = some s') (hinside : s.callback.inside = true) :
    let out := finishCallback s.pool.globals s.callback s.pool.list
    let out' := finishCallback s.pool.globals s'.callback s'.pool.list
    out'.1 = out.1 ∧ s'.written ++ out'.2 = s.written ++ out.2 := by
  have hsame {t : Sys F} (hwritten : t.written = s.written)
      (heq : finishCallback s.pool.globals t.callback t.pool.list =
        finishCallback s.pool.globals s.callback s.pool.list) :
      (finishCallback s.pool.globals t.callback t.pool.list).1 =
          (finishCallback s.pool.globals s.callback s.pool.list).1 ∧
        t.written ++ (finishCallback s.pool.globals t.callback t.pool.list).2 =
          s.written ++
            (finishCallback s.pool.globals s.callback s.pool.list).2 := by
    rw [hwritten, heq]
    exact ⟨rfl, rfl⟩
  cases callback_step h with
  | lock _ hpc =>
      rw [hpc] at hinside
      cases hinside
  | slotsEnd dst j hpc hslot =>
      have hnil : s.pool.list.drop j = [] :=
        List.drop_eq_nil_of_le (List.getElem?_eq_none_iff.1 hslot)
      have hlist : sweep (fun rest => (mixList s.pool.globals dst rest).2) j
          s.pool.list = s.pool.list := sweep_end rfl hslot
      refine hsame rfl ?_
      rw [hpc, finishCallback, finishCallback, hlist, hnil]
      rfl
  | slotSkip dst j sample hpc hslot hskip =>
      refine hsame rfl ?_
      rw [hpc, finishCallback_slot _ dst j hslot]
      show finishCallback _ (.slot dst (j + 1)) s.pool.list = _
      rw [finishCallback_skip _ dst j hslot]
      split
      · rename_i hplay
        rw [mixSample_of_noFrame (hskip.resolve_left hplay)]
      · rfl
  | slotCheck dst j sample sample' hpc hslot hplay hsize hcheck =>
      have hmix := mixSample_passes s.pool.globals dst hsize
      rw [← hcheck] at hmix
      refine hsame rfl ?_
      rw [hpc, finishCallback_slot _ dst j hslot, if_pos hplay, hmix]
      dsimp only [Sys.withList]
      split
      · exact finishCallback_next _ dst j hslot sample'
      · exact finishCallback_passSet _ dst j 0 hslot sample'
  | pass dst j i sample m hpc hslot hi hm =>
      have hstep := passes_step hg hi hm
      refine hsame rfl ?_
      rw [hpc, finishCallback_pass _ dst j i hslot]
      dsimp only [Sys.withList]
      rw [hstep.1, hstep.2]
      split
      · exact finishCallback_next _ m.dst j hslot m.sample
      · exact finishCallback_passSet _ m.dst j _ hslot m.sample
  | passesEnd dst j i sample hpc hslot hi =>
      refine hsame rfl ?_
      rw [hpc, finishCallback_pass _ dst j i hslot, passes_end hi]
      exact finishCallback_skip _ dst j hslot
  | write dst hpc =>
      rw [hpc]
      exact ⟨rfl, List.append_nil _⟩
  | leave hpc =>
      refine hsame rfl ?_
      rw [hpc]
      rfl

theorem callback_frame (h : stepCallback s = some s') :
    s'.pool.globals = s.pool.globals ∧ s'.pool.mywavs = s.pool.mywavs ∧
      s'.main = s.main := by
  cases callback_step h <;> exact ⟨rfl, rfl, rfl⟩

/-- What holds in every state: the mutex is held by whoever is inside, the
device has frames, and a voice that is to be added is the one of its
request. -/
structure Inv (s : Sys F) : Prop where
  locks : Locks s
  device : 0 < s.pool.globals.bytes * s.pool.globals.channels
  request : ∀ i loop wav, s.main = .addEnter i loop wav →
    ∃ wf, s.pool.fileAt i = some wf ∧
      startVoice s.pool.globals wf loop = some wav

theorem inv_step {a : Action F} (hi : Inv s) (h : step s a = some s') :
    Inv s' := by
  have hlocks := locks_step hi.locks h
  cases a with
  | main =>
      obtain ⟨hglobals, -, -, hmain⟩ := main_frame h
      refine ⟨hlocks, by rw [hglobals]; exact hi.device, ?_⟩
      intro i loop wav henter
      exact absurd henter (hmain i loop wav)
  | callback =>
      obtain ⟨hglobals, hmywavs, hmain⟩ := callback_frame h
      refine ⟨hlocks, by rw [hglobals]; exact hi.device, ?_⟩
      intro i loop wav henter
      rw [hmain] at henter
      rw [fileAt_congr hmywavs, hglobals]
      exact hi.request i loop wav henter
  | play i loop =>
      simp only [step] at h
      split at h
      · split at h
        · cases h
          exact hi
        · rename_i wf hfile
          obtain ⟨ws, hws, rfl⟩ := Option.map_eq_some_iff.1 h
          refine ⟨hlocks, hi.device, ?_⟩
          intro i' loop' wav henter
          cases henter
          exact ⟨wf, hfile, hws⟩
      · cases h
  | clear =>
      simp only [step] at h
      split at h
      · cases h
        exact ⟨hlocks, hi.device, nofun⟩
      · cases h
  | speed mod =>
      simp only [step] at h
      split at h
      · rename_i hpc
        cases h
        refine ⟨hlocks, hi.device, ?_⟩
        intro i loop wav henter
        exact nomatch hpc.symm.trans henter
      · cases h
  | buffer dstSize =>
      simp only [step] at h
      split at h
      · cases h
        exact ⟨hlocks, hi.device, hi.request⟩
      · cases h

/-- Where the main thread has the mutex. -/
theorem Inv.free_callback (hi : Inv s) (h : s.owner ≠ some .callback) :
    finished s =
      ({ s.pool with list := finishMain s.main s.pool.list }, s.written) :=
  finished_of_outside (hi.locks.callback_outside h)

/-- Where nobody has the mutex. -/
theorem Inv.free (hi : Inv s) (h : s.owner = none) :
    finished s = (s.pool, s.written) := by
  have hmain := hi.locks.main_outside (by rw [h]; exact nofun)
  rw [hi.free_callback (by rw [h]; exact nofun), finishMain_outside hmain]

theorem finished_main (hi : Inv s) (h : stepMain s = some s') :
    exec poolStep (effectOf s .main) (finished s) = some (finished s') := by
  have hi' : Inv s' := inv_step (a := .main) hi h
  have hother : some Party.main ≠ some .callback := by decide
  cases hinside : s.main.inside with
  | true =>
      have howner := hi.locks.main.1 hinside
      have hout := hi.locks.callback_outside (by rw [howner]; exact hother)
      obtain ⟨hlist, hglobals, hmywavs, hcallback, hwritten⟩ :=
        finishMain_step h hinside
      rw [effectOf, MainPc.waiting_of_inside hinside, exec,
        finished_of_outside hout,
        finished_of_outside (by rw [hcallback]; exact hout), hlist, hwritten]
      show _ = some (World.mk s'.pool.globals s'.pool.mywavs _, _)
      rw [hglobals, hmywavs]
  | false =>
      cases main_step h with
      | addLock i loop wav hpc hfree =>
          obtain ⟨wf, hfile, hws⟩ := hi.request i loop wav hpc
          have heffect : effectOf s .main = [.play i loop] := by
            rw [effectOf, hpc]
            rfl
          rw [heffect, exec_singleton, hi.free hfree, hi'.free_callback hother,
            poolStep]
          show (playIndex s.pool i loop).map _ = _
          rw [playIndex, hfile]
          dsimp only
          rw [hws]
          show some (_, s.written ++ []) = _
          rw [List.append_nil]
          rfl
      | countLock hpc hfree =>
          have heffect : effectOf s .main = [] := by
            rw [effectOf, hpc]
            rfl
          rw [heffect, exec, hi.free hfree, hi'.free_callback hother]
          rfl
      | clearLock hpc hfree =>
          have heffect : effectOf s .main = [.clear] := by
            rw [effectOf, hpc]
            rfl
          rw [heffect, exec_singleton, hi.free hfree, hi'.free_callback hother]
          show some (_, s.written ++ []) = _
          rw [List.append_nil]
          rfl
      | addFull _ _ hpc | addTake _ _ _ hpc | addNext _ _ _ hpc | addLeave hpc
      | countEnd _ hpc | countNext _ hpc | clearEnd _ hpc | clearSlot _ _ hpc
      | leave hpc =>
          rw [hpc] at hinside
          cases hinside

theorem finished_callback (hi : Inv s) (h : stepCallback s = some s') :
    exec poolStep (effectOf s .callback) (finished s) =
      some (finished s') := by
  obtain ⟨hglobals, hmywavs, hmain⟩ := callback_frame h
  cases hinside : s.callback.inside with
  | true =>
      have howner := hi.locks.callback.1 hinside
      have hout := hi.locks.main_outside (by rw [howner]; decide)
      obtain ⟨hlist, hwritten⟩ := finishCallback_step hi.device h hinside
      rw [effectOf, CallbackPc.waiting_of_inside hinside, exec, finished,
        finished, hmain, finishMain_outside hout, finishMain_outside hout,
        hglobals]
      dsimp only
      rw [hlist, hwritten]
      show _ = some (World.mk s'.pool.globals s'.pool.mywavs _, _)
      rw [hglobals, hmywavs]
  | false =>
      cases callback_step h with
      | lock dstSize hpc hfree =>
          have hout := hi.locks.main_outside (by rw [hfree]; decide)
          have heffect : effectOf s .callback = [.callback dstSize] := by
            rw [effectOf, hpc]
            rfl
          rw [heffect, exec_singleton, hi.free hfree, finished,
            finishMain_outside hout]
          rfl
      | slotsEnd _ _ hpc | slotSkip _ _ _ hpc | slotCheck _ _ _ _ hpc
      | pass _ _ _ _ _ hpc | passesEnd _ _ _ _ hpc | write _ hpc | leave hpc =>
          rw [hpc] at hinside
          cases hinside

/-- A step of the system does to the pool what takes effect in it. -/
theorem finished_step {a : Action F} (hi : Inv s) (h : step s a = some s')
    (hquiet : ∀ mod, a = .speed mod → s.callback.mixing = false) :
    exec poolStep (effectOf s a) (finished s) = some (finished s') := by
  cases a with
  | main => exact finished_main hi h
  | callback => exact finished_callback hi h
  | play i loop =>
      simp only [step] at h
      split at h
      · rename_i hpc
        split at h
        · rename_i hfile
          cases h
          -- a request without a file is none of the pool either
          have hfile' : (finished s).1.fileAt i = none :=
            (fileAt_congr rfl i).trans hfile
          rw [effectOf, hfile]
          show exec poolStep [.play i loop] (finished s) = _
          rw [exec_singleton, poolStep]
          show (playIndex (finished s).1 i loop).map _ = _
          rw [playIndex, hfile']
          show some (_, (finished s).2 ++ []) = _
          rw [List.append_nil]
        · rename_i wf hfile
          obtain ⟨ws, -, rfl⟩ := Option.map_eq_some_iff.1 h
          rw [effectOf, hfile]
          show some (finished s) = _
          rw [finished, finished, hpc]
          rfl
      · cases h
  | clear =>
      simp only [step] at h
      split at h
      · rename_i hpc
        cases h
        show some (finished s) = _
        rw [finished, finished, hpc]
        rfl
      · cases h
  | speed mod =>
      simp only [step] at h
      split at h
      · rename_i hpc
        cases h
        have hmixing := hquiet mod rfl
        show exec poolStep [.speed mod] (finished s) = _
        rw [exec_singleton, poolStep, finished, finished, hpc]
        cases hcallback : s.callback with
        | slot dst j | pass dst j i =>
            rw [hcallback] at hmixing
            cases hmixing
        | outside | enter _ | write _ | leave =>
            show some (_, _ ++ []) = some _
            rw [List.append_nil]
            rfl
      · cases h
  | buffer dstSize =>
      simp only [step] at h
      split at h
      · rename_i hpc
        cases h
        show some (finished s) = _
        rw [finished, finished, hpc]
        rfl
      · cases h

/-! ## Calls and their effects -/

/-- What the main thread calls waits for the mutex, or takes effect at once;
what waits takes effect when it enters. -/
theorem waiting_main_step {a : Action F} (h : step s a = some s') :
    s.main.waiting ++ (callOf a).filter (fun op => !isCallback op) =
      (effectOf s a).filter (fun op => !isCallback op) ++ s'.main.waiting := by
  cases a with
  | main =>
      have hnone : s'.main.waiting = [] := by
        cases main_step h <;> rfl
      rw [effectOf, MainPc.waiting_main, hnone]
      rfl
  | callback =>
      rw [effectOf, CallbackPc.waiting_main, (callback_frame h).2.2]
      exact List.append_nil _
  | play i loop =>
      simp only [step] at h
      split at h
      · rename_i hpc
        split at h
        · rename_i hfile
          cases h
          rw [effectOf, hfile, hpc]
          rfl
        · rename_i wf hfile
          obtain ⟨ws, -, rfl⟩ := Option.map_eq_some_iff.1 h
          rw [effectOf, hfile, hpc]
          rfl
      · cases h
  | clear | speed mod =>
      simp only [step] at h
      split at h
      · rename_i hpc
        cases h
        rw [hpc]
        rfl
      · cases h
  | buffer dstSize =>
      simp only [step] at h
      split at h
      · cases h
        exact List.append_nil _
      · cases h

/-- So do the callbacks. -/
theorem waiting_callback_step {a : Action F} (h : step s a = some s') :
    s.callback.waiting ++ (callOf a).filter isCallback =
      (effectOf s a).filter isCallback ++ s'.callback.waiting := by
  cases a with
  | main =>
      rw [effectOf, MainPc.waiting_callback, (main_frame h).2.2.1]
      exact List.append_nil _
  | callback =>
      have hnone : s'.callback.waiting (F := F) = [] := by
        cases callback_step h with
        | slotCheck | pass =>
            dsimp only
            split <;> rfl
        | _ => rfl
      rw [effectOf, CallbackPc.waiting_callback, hnone]
      rfl
  | play i loop =>
      simp only [step] at h
      split at h
      · split at h
        · rename_i hfile
          cases h
          rw [effectOf, hfile]
          exact List.append_nil _
        · rename_i wf hfile
          obtain ⟨ws, -, rfl⟩ := Option.map_eq_some_iff.1 h
          rw [effectOf, hfile]
          exact List.append_nil _
      · cases h
  | clear | speed mod =>
      simp only [step] at h
      split at h
      · cases h
        exact List.append_nil _
      · cases h
  | buffer dstSize =>
      simp only [step] at h
      split at h
      · rename_i hpc
        cases h
        rw [hpc]
        rfl
      · cases h

/-- `g_speed` is not changed in the middle of a callback. -/
def Quiet {init : Sys F} (r : Run step init) : Prop :=
  ∀ t < r.len, ∀ mod, r.act t = .speed mod →
    (r.state t).callback.mixing = false

section Runs

variable {g : Globals F} {mywavs : Fin 100 → WaveFile}
  (r : Run step (Sys.init g mywavs))

/-- The operations that have been called before moment `n`. -/
def calls (n : Nat) : List (Op F) :=
  (List.range n).flatMap fun t => callOf (r.act t)

/-- The operations that have taken effect before moment `n`. -/
def effects (n : Nat) : List (Op F) :=
  (List.range n).flatMap fun t => effectOf (r.state t) (r.act t)

theorem calls_succ (n : Nat) :
    calls r (n + 1) = calls r n ++ callOf (r.act n) := by
  rw [calls, List.range_succ, List.flatMap_append, List.flatMap_singleton]
  rfl

theorem effects_succ (n : Nat) :
    effects r (n + 1) = effects r n ++ effectOf (r.state n) (r.act n) := by
  rw [effects, List.range_succ, List.flatMap_append, List.flatMap_singleton]
  rfl

/-- The functions of the pool are one step each. -/
structure OneStepEach (n : Nat) : Prop where
  /-- When nobody has the mutex, the pool and the buffers written so far are
  what the operations make of them one after the other. -/
  outcome : (r.state n).owner = none →
    exec poolStep (effects r n) (World.init g mywavs, []) =
      some ((r.state n).pool, (r.state n).written)
  /-- The calls of the main thread take effect in their order, and all of them
  have but one that waits for the mutex. -/
  main : (calls r n).filter (fun op => !isCallback op) =
    (effects r n).filter (fun op => !isCallback op) ++
      (r.state n).main.waiting
  /-- So do the callbacks. -/
  callback : (calls r n).filter isCallback =
    (effects r n).filter isCallback ++ (r.state n).callback.waiting

variable {r}

/-- The order of the calls of one thread, up to any moment. -/
theorem calls_filter {n : Nat} (hn : n ≤ r.len) (p : Op F → Bool)
    (waiting : Sys F → List (Op F)) (h0 : waiting (Sys.init g mywavs) = [])
    (hstep : ∀ s a s', step s a = some s' →
      waiting s ++ (callOf a).filter p =
        (effectOf s a).filter p ++ waiting s') :
    (calls r n).filter p = (effects r n).filter p ++ waiting (r.state n) := by
  induction n with
  | zero =>
      rw [r.start, h0]
      rfl
  | succ n ih =>
      rw [calls_succ, effects_succ, List.filter_append, List.filter_append,
        ih (Nat.le_of_succ_le hn), List.append_assoc,
        hstep _ _ _ (r.next n hn), List.append_assoc]

/-- **The functions of the pool are atomic.**  However the two threads run into
each other, each function takes effect in one step between its call and its
return, and the pool and the output are what these effects make of them. -/
theorem pool_is_atomic (hg : 0 < g.bytes * g.channels) (hquiet : Quiet r)
    {n : Nat} (hn : n ≤ r.len) : OneStepEach r n := by
  have hall : Inv (r.state n) ∧
      exec poolStep (effects r n) (World.init g mywavs, []) =
        some (finished (r.state n)) := by
    induction n with
    | zero =>
        rw [r.start]
        refine ⟨⟨⟨?_, ?_⟩, hg, nofun⟩, rfl⟩
        · exact iff_of_false nofun nofun
        · exact iff_of_false nofun nofun
    | succ n ih =>
        obtain ⟨hi, hexec⟩ := ih (Nat.le_of_succ_le hn)
        have hstep := r.next n hn
        refine ⟨inv_step hi hstep, ?_⟩
        rw [effects_succ, exec_append, hexec]
        exact finished_step hi hstep (hquiet n hn)
  constructor
  case outcome =>
    intro hfree
    rw [hall.2, hall.1.free hfree]
  case main =>
    exact calls_filter hn _ (fun s => s.main.waiting) rfl
      (fun _ _ _ => waiting_main_step)
  case callback =>
    exact calls_filter hn _ (fun s => s.callback.waiting) rfl
      (fun _ _ _ => waiting_callback_step)

end Runs

end Atomic

/-! ## What a pass reads and writes -/

section Bounds

open Bucktoot.Ports.MixerSafety

/-- A voice of a file whose last frame fits. -/
def Fits (s : WaveSample ℚ) : Prop :=
  ∃ wf loop, (0 ≤ wf.bits ∧ 0 ≤ wf.channels) ∧ LastFrameFits wf loop ∧
    OfRequest wf loop s

/-- A voice that the mixer is in the middle of. -/
structure Steady (s : WaveSample ℚ) : Prop where
  fits : Fits s
  sound : Sound s
  inData : InData s

theorem Fits.continues {s t : WaveSample ℚ} (h : Fits s) (hc : Continues s t) :
    Fits t := by
  obtain ⟨wf, loop, hformat, hfits, hrequest⟩ := h
  exact ⟨wf, loop, hformat, hfits, hrequest.continues hc⟩

/-- What the check in front of a buffer lets play. -/
theorem Fits.steady {s : WaveSample ℚ} (h : Fits s)
    (hsize : ¬ s.bytes * s.channels ≤ 0)
    (hplay : (checkLoop s (sizeOf s)).play ≠ 0) :
    Steady (checkLoop s (sizeOf s)) := by
  obtain ⟨wf, loop, hformat, hfits, hrequest⟩ := h
  have hframe : 0 < fileFrame wf := by
    rw [← frameSize_of_request hrequest]
    exact Int.not_le.1 hsize
  have hc := checkLoop_continues s (sizeOf s)
  have hsound : Sound s := by
    obtain hzero | ⟨hempty, hloop⟩ | ⟨hdata, -⟩ := hfits
    · omega
    · subst hloop
      exact absurd (entry_of_noData hrequest hframe hempty) hplay
    · exact sound_of_request hrequest hframe hdata
  exact ⟨Fits.continues ⟨wf, loop, hformat, hfits, hrequest⟩ hc,
    hsound.continues hc, hsound.checkLoop_inData hplay⟩

/-- What a pass leaves playing, whatever `g_speed` is. -/
theorem Steady.stepFrame {s : WaveSample ℚ} (h : Steady s) (g : Globals ℚ)
    (hplay : (stepFrame g (sizeOf s) (countOf s) s).play ≠ 0) :
    Steady (stepFrame g (sizeOf s) (countOf s) s) := by
  have hc := stepFrame_continues g (sizeOf s) (countOf s) s
  have hmoved : Sound (moved g s) := ⟨h.sound.size, h.sound.data, h.sound.loop⟩
  have heq : Mixer.stepFrame g (sizeOf s) (countOf s) s =
      checkLoop (moved g s) (sizeOf s) := h.sound.stepFrame_eq g
  refine ⟨h.fits.continues hc, h.sound.continues hc, ?_⟩
  rw [heq] at hplay ⊢
  exact hmoved.checkLoop_inData hplay

/-- Everything a pass reads is inside of the data, everything it writes is
inside of the buffer, and it does not divide by zero. -/
structure PassInBounds (g : Globals ℚ) (dst : List UInt8) (s : WaveSample ℚ)
    (i : Nat) : Prop where
  reads : ∀ p ∈ (framePass g dst s i).reads, 0 ≤ p ∧ p < s.dataLen
  writes : ∀ p ∈ (framePass g dst s i).writes, 0 ≤ p ∧ p < dst.length
  divisors : ∀ d ∈ (framePass g dst s i).divisors, d ≠ 0

theorem Steady.passInBounds {s : WaveSample ℚ} (h : Steady s) (g : Globals ℚ)
    {dst : List UInt8} {i : Nat} (hi : i < dst.length) (h4 : i % 4 = 0)
    (hdst : dst.length % 4 = 0) : PassInBounds g dst s i := by
  obtain ⟨⟨wf, loop, hformat, hfits, hrequest⟩, hsound, h0, hlt⟩ := h
  have hsize : 0 < fileFrame wf := by
    rw [← frameSize_of_request hrequest]
    exact hsound.size
  have hdata : 0 < wf.wavLen := by
    rw [← hrequest.dataLen]
    exact hsound.data
  have hlast : fileFrame wf * ((wf.wavLen - 1) / fileFrame wf) +
      readWidth wf ≤ wf.wavLen := by
    obtain hzero | ⟨hempty, -⟩ | ⟨-, hlast⟩ := hfits
    · omega
    · omega
    · exact hlast
  constructor
  · intro p hp
    change p ∈ readsOf s (framePos s (frameSize s) (frameSize s : ℚ)) at hp
    rw [framePos_eq s hsound.size h0, mem_readsOf hrequest,
      frameSize_of_request hrequest] at hp
    have hfloor0 : 0 ≤ ⌊s.currentFrame⌋ := Int.floor_nonneg.2 h0
    have hfloor : ⌊s.currentFrame⌋ ≤ (wf.wavLen - 1) / fileFrame wf := by
      have hq : (0 : ℚ) < fileFrame wf := by exact_mod_cast hsize
      rw [frameCount_of_request hrequest, lt_div_iff₀ hq] at hlt
      have hle := mul_le_mul_of_nonneg_right (Int.floor_le s.currentFrame) hq.le
      have hcast : ((⌊s.currentFrame⌋ * fileFrame wf : Int) : ℚ) <
          (wf.wavLen : ℚ) := by
        push_cast
        linarith
      have hint : ⌊s.currentFrame⌋ * fileFrame wf < wf.wavLen := by
        exact_mod_cast hcast
      rw [Int.le_ediv_iff_mul_le hsize]
      omega
    have hmul := Int.mul_le_mul_of_nonneg_left hfloor hsize.le
    have hpos := Int.mul_nonneg hsize.le hfloor0
    rw [hrequest.dataLen]
    omega
  · intro p hp
    change p ∈ [(i : Int), i + 1, i + 2, i + 3] at hp
    simp only [List.mem_cons, List.not_mem_nil, or_false] at hp
    omega
  · intro d hd
    simp only [framePass, mixFrame, List.nil_append] at hd
    split at hd
    · cases hd
    · obtain rfl := List.mem_singleton.1 hd
      exact hsound.frameCount_pos.ne'

/-- The voice the main thread is adding. -/
def adding : MainPc ℚ → Option (WaveSample ℚ)
  | .addEnter _ _ wav | .adding wav _ => some wav
  | _ => none

/-- The voices fit, buffers are whole frames, and the voice in front of a pass
is one the mixer is in the middle of. -/
structure Safe (s : Sys ℚ) : Prop where
  locks : Locks s
  device : s.pool.globals.bytes * s.pool.globals.channels = 4
  voices : ∀ sample ∈ s.pool.list, sample.play ≠ 0 → Fits sample
  adds : ∀ wav, adding s.main = some wav → Fits wav
  buffer : ∀ size, s.callback = .enter size → size % 4 = 0
  slot : ∀ dst j, s.callback = .slot dst j → dst.length % 4 = 0
  pass : ∀ dst j i, s.callback = .pass dst j i →
    dst.length % 4 = 0 ∧ i % 4 = 0 ∧
      ∃ sample, s.pool.list[j]? = some sample ∧ Steady sample

variable {s s' : Sys ℚ}

theorem fits_set {list : List (WaveSample ℚ)} {k : Nat} {t : WaveSample ℚ}
    (h : ∀ sample ∈ list, sample.play ≠ 0 → Fits sample)
    (ht : t.play ≠ 0 → Fits t) :
    ∀ sample ∈ list.set k t, sample.play ≠ 0 → Fits sample := by
  intro sample hmem hplay
  obtain hold | rfl := List.mem_or_eq_of_mem_set hmem
  · exact h sample hold hplay
  · exact ht hplay

theorem adds_none {pc : MainPc ℚ} (h : adding pc = none) :
    ∀ wav, adding pc = some wav → Fits wav := by
  intro wav hwav
  rw [h] at hwav
  cases hwav

theorem safe_main (hi : Safe s) (h : stepMain s = some s') : Safe s' := by
  have hlocks := locks_main hi.locks h
  obtain ⟨hl, hdevice, hvoices, hadds, hbuffer, hslot, hpass⟩ := hi
  -- who writes to the list has the mutex, so no pass is under way
  have hno (hin : s.main.inside = true) : ∀ dst j i,
      s.callback ≠ .pass dst j i := by
    intro dst j i hpc
    have howner := hl.main.1 hin
    have hout := hl.callback_outside (by rw [howner]; exact nofun)
    rw [hpc] at hout
    cases hout
  have hstep := main_step h
  clear h
  cases hstep with
  | addLock i loop wav hpc | addNext wav tmp k hpc =>
      rw [hpc] at hadds
      exact ⟨hlocks, hdevice, hvoices, hadds, hbuffer, hslot, hpass⟩
  | addTake wav tmp k hpc hslot' hfree =>
      have hwav : Fits { wav with play := 1 } := by
        obtain ⟨wf, loop, hformat, hfits, hrequest⟩ :=
          hadds wav (by rw [hpc]; rfl)
        exact ⟨wf, loop, hformat, hfits, hrequest.stored⟩
      have hvoices' := fits_set (k := k) hvoices (fun _ => hwav)
      refine ⟨hlocks, hdevice, hvoices', adds_none rfl, hbuffer, hslot, ?_⟩
      intro dst j i hcallback
      exact absurd hcallback (hno (by rw [hpc]; rfl) dst j i)
  | clearSlot tmp k hpc hslot' =>
      have hended : ({ tmp with play := 0 } : WaveSample ℚ).play ≠ 0 →
          Fits { tmp with play := 0 } := fun hplay => (hplay rfl).elim
      have hvoices' := fits_set (k := k) hvoices hended
      refine ⟨hlocks, hdevice, hvoices', adds_none rfl, hbuffer, hslot, ?_⟩
      intro dst j i hcallback
      exact absurd hcallback (hno (by rw [hpc]; rfl) dst j i)
  | addFull | addLeave | countLock | countEnd | countNext | clearLock
  | clearEnd | leave =>
      exact ⟨hlocks, hdevice, hvoices, adds_none rfl, hbuffer, hslot, hpass⟩

/-- The voice of slot `j` was moved, and the callback goes on with it if it
still plays, and with the next slot if it has ended. -/
theorem safe_moved (hi : Safe s) {j i : Nat} {dst : List UInt8}
    {t : WaveSample ℚ}
    (hlocks : Locks { s.withList (s.pool.list.set j t) with
      callback := if t.play = 0 then .slot dst (j + 1) else .pass dst j i })
    (hj : j < s.pool.list.length) (hlen : dst.length % 4 = 0) (h4 : i % 4 = 0)
    (hfits : Fits t) (hsteady : t.play ≠ 0 → Steady t) :
    Safe { s.withList (s.pool.list.set j t) with
      callback := if t.play = 0 then .slot dst (j + 1) else .pass dst j i } := by
  refine ⟨hlocks, hi.device, fits_set hi.voices fun _ => hfits, hi.adds,
    ?_, ?_, ?_⟩
  · intro size hcallback
    dsimp only at hcallback
    split at hcallback <;> cases hcallback
  · intro dst' j' hcallback
    dsimp only at hcallback
    split at hcallback
    · cases hcallback
      exact hlen
    · cases hcallback
  · intro dst' j' i' hcallback
    dsimp only at hcallback
    split at hcallback
    · cases hcallback
    · rename_i hstill
      cases hcallback
      exact ⟨hlen, h4, t, List.getElem?_set_self hj, hsteady hstill⟩

theorem safe_callback (hi : Safe s) (h : stepCallback s = some s') :
    Safe s' := by
  have hlocks := locks_callback hi.locks h
  have hsafe := hi
  obtain ⟨hl, hdevice, hvoices, hadds, hbuffer, hslot, hpass⟩ := hi
  have hstep := callback_step h
  clear h
  cases hstep with
  | lock dstSize hpc hfree =>
      refine ⟨hlocks, hdevice, hvoices, hadds, nofun, ?_, nofun⟩
      intro dst j hcallback
      cases hcallback
      rw [List.length_replicate]
      exact hbuffer dstSize hpc
  | slotSkip dst j sample hpc hat hskip =>
      refine ⟨hlocks, hdevice, hvoices, hadds, nofun, ?_, nofun⟩
      intro dst' j' hcallback
      cases hcallback
      exact hslot dst j hpc
  | slotCheck dst j sample sample' hpc hat hplay hsize hcheck =>
      have hfits := hvoices sample (List.mem_of_getElem? hat) hplay
      have heq : sample' = checkLoop sample (sizeOf sample) := by
        rw [hcheck, countOf, clampCurrentFrame_eq_checkLoop]
      have hfits' : Fits sample' := by
        rw [heq]
        exact hfits.continues (checkLoop_continues sample (sizeOf sample))
      refine safe_moved hsafe hlocks (List.getElem?_eq_some_iff.1 hat).1
        (hslot dst j hpc) rfl hfits' fun hstill => ?_
      rw [heq] at hstill ⊢
      exact hfits.steady hsize hstill
  | pass dst j i sample m hpc hat hi hm =>
      obtain ⟨hlen, h4, sample₀, hat₀, hsteady⟩ := hpass dst j i hpc
      obtain rfl : sample₀ = sample := Option.some.inj (hat₀.symm.trans hat)
      have hsample : m.sample = stepFrame s.pool.globals (sizeOf sample₀)
          (countOf sample₀) sample₀ := by
        rw [hm]
        rfl
      have hmlen : m.dst.length = dst.length := by
        rw [hm]
        exact DeviceBuffer.mixFrame_length ..
      have hfits' : Fits m.sample := by
        rw [hsample]
        exact hsteady.fits.continues (stepFrame_continues ..)
      have h4' : (i + s.pool.globals.bytes * s.pool.globals.channels) % 4 = 0 := by
        rw [hdevice]
        omega
      refine safe_moved hsafe hlocks (List.getElem?_eq_some_iff.1 hat).1
        (hmlen ▸ hlen) h4' hfits' fun hstill => ?_
      rw [hsample] at hstill ⊢
      exact hsteady.stepFrame s.pool.globals hstill
  | passesEnd dst j i sample hpc hat hend =>
      refine ⟨hlocks, hdevice, hvoices, hadds, nofun, ?_, nofun⟩
      intro dst' j' hcallback
      cases hcallback
      exact (hpass dst j i hpc).1
  | slotsEnd | write | leave =>
      exact ⟨hlocks, hdevice, hvoices, hadds, nofun, nofun, nofun⟩

/-- What is asked of the calls: the files that are played fit, and buffers are
whole frames. -/
def Asked (mywavs : Fin 100 → WaveFile) : Action ℚ → Prop
  | .play i loop =>
      ∀ wf, (World.init (stereo (1 : ℚ)) mywavs).fileAt i = some wf →
      (0 ≤ wf.bits ∧ 0 ≤ wf.channels) ∧ LastFrameFits wf loop
  | .buffer dstSize => dstSize % 4 = 0
  | _ => True

theorem safe_step {a : Action ℚ} (hi : Safe s) (hasked : Asked s.pool.mywavs a)
    (h : step s a = some s') : Safe s' ∧ s'.pool.mywavs = s.pool.mywavs := by
  have hlocks := locks_step hi.locks h
  cases a with
  | main => exact ⟨safe_main hi h, (main_frame h).2.1⟩
  | callback => exact ⟨safe_callback hi h, (callback_frame h).2.1⟩
  | play i loop =>
      simp only [step] at h
      split at h
      · split at h
        · cases h
          exact ⟨hi, rfl⟩
        · rename_i wf hfile
          obtain ⟨ws, hws, rfl⟩ := Option.map_eq_some_iff.1 h
          obtain ⟨hformat, hfits⟩ := hasked wf (by rw [← hfile]; rfl)
          have hrequest := (startVoice_ofRequest hws).1
          refine ⟨⟨hlocks, hi.device, hi.voices, ?_, hi.buffer, hi.slot,
            hi.pass⟩, rfl⟩
          intro wav hwav
          cases hwav
          exact ⟨wf, loop, hformat, hfits, hrequest⟩
      · cases h
  | clear =>
      simp only [step] at h
      split at h
      · cases h
        exact ⟨⟨hlocks, hi.device, hi.voices, adds_none rfl, hi.buffer, hi.slot,
          hi.pass⟩, rfl⟩
      · cases h
  | speed mod =>
      simp only [step] at h
      split at h
      · cases h
        exact ⟨⟨hlocks, hi.device, hi.voices, hi.adds, hi.buffer, hi.slot,
          hi.pass⟩, rfl⟩
      · cases h
  | buffer dstSize =>
      simp only [step] at h
      split at h
      · cases h
        refine ⟨⟨hlocks, hi.device, hi.voices, hi.adds, ?_, nofun, nofun⟩, rfl⟩
        intro size hsize
        cases hsize
        exact hasked
      · cases h

/-- **`g_speed` may be changed at any time.**  On a sixteen-bit stereo device,
if the files that are played have their last frames inside of their data and
all buffers are whole frames of the device, every pass of the mixer in every
run, also in the middle of a callback, reads inside of the data, writes inside
of the buffer and does not divide by zero. -/
theorem passes_stay_inside {speed : ℚ} {mywavs : Fin 100 → WaveFile}
    (r : Run step (Sys.init (stereo speed) mywavs))
    (hasked : ∀ t < r.len, Asked mywavs (r.act t)) {n : Nat} (hn : n ≤ r.len)
    {dst : List UInt8} {j i : Nat}
    (hpc : (r.state n).callback = .pass dst j i) (hi : i < dst.length) :
    ∃ sample, (r.state n).pool.list[j]? = some sample ∧
      PassInBounds (r.state n).pool.globals dst sample i := by
  have hall : Safe (r.state n) ∧ (r.state n).pool.mywavs = mywavs := by
    refine r.invariantAt (fun _ s => Safe s ∧ s.pool.mywavs = mywavs) ?_ ?_ hn
    · refine ⟨⟨⟨iff_of_false nofun nofun, iff_of_false nofun nofun⟩, rfl, ?_,
        nofun, nofun, nofun, nofun⟩, rfl⟩
      intro sample hmem hplay
      rw [List.eq_of_mem_replicate hmem] at hplay
      exact absurd rfl hplay
    · rintro k hk ⟨hsafe, hmywavs⟩
      have hask : Asked (r.state k).pool.mywavs (r.act k) := by
        rw [hmywavs]
        exact hasked k hk
      obtain ⟨hsafe', hsame⟩ := safe_step hsafe hask (r.next k hk)
      exact ⟨hsafe', hsame.trans hmywavs⟩
  obtain ⟨hdst, h4, sample, hat, hsteady⟩ := hall.1.pass dst j i hpc
  exact ⟨sample, hat, hsteady.passInBounds _ hi h4 hdst⟩

/-- A file of one frame of two channels. -/
def oneFrameFile : WaveFile := ⟨some "a.wav", [1, 0, 2, 0], 4, 44100, 2, 16⟩

/-- It is started, the main thread goes on to its last loop, and a callback
comes to its first pass. -/
def firstPass : List (Action ℚ) :=
  [.play 0 1, .main, .main, .main, .buffer 4, .callback, .callback]

def firstPassRun : Run step (Sys.init (stereo (1 : ℚ)) fun _ => oneFrameFile) :=
  Run.ofExec firstPass .clear rfl

theorem passes_stay_inside_firstPass :
    ∃ sample, (firstPassRun.state 7).pool.list[0]? = some sample ∧
      PassInBounds (firstPassRun.state 7).pool.globals [0, 0, 0, 0] sample 0 :=
  passes_stay_inside firstPassRun
    (by
      intro t ht
      match t, ht with
      | 0, _ =>
          intro wf hwf
          cases hwf
          exact ⟨by decide, by decide⟩
      | 1, _ | 2, _ | 3, _ | 5, _ | 6, _ => trivial
      | 4, _ => rfl)
    (Nat.le_refl 7) (by decide +kernel) (by decide)

/-- Behind this pass the voice has filled the buffer; two hundred slots are
looked at, and the callback has written the buffer and left the mutex. -/
def wholeCallback : List (Action ℚ) :=
  firstPass ++ List.replicate 204 .callback

theorem wholeCallback_possible :
    (exec step wholeCallback
      (Sys.init (stereo (1 : ℚ)) fun _ => oneFrameFile)).isSome = true := by
  decide +kernel

def wholeCallbackRun :
    Run step (Sys.init (stereo (1 : ℚ)) fun _ => oneFrameFile) :=
  Run.ofExec wholeCallback .clear (Option.some_get wholeCallback_possible).symm

/-- Two calls have been made, the mutex is free, and what the callback has
written is what its effect behind that of the request writes. -/
theorem pool_is_atomic_wholeCallback :
    calls wholeCallbackRun 211 = [.play 0 1, .callback 4] ∧
      (wholeCallbackRun.state 211).written = [[1, 0, 2, 0]] ∧
      exec poolStep (effects wholeCallbackRun 211)
        (World.init (stereo (1 : ℚ)) fun _ => oneFrameFile, []) =
          some ((wholeCallbackRun.state 211).pool, [[1, 0, 2, 0]]) := by
  have hquiet : Quiet wholeCallbackRun := by
    intro t ht mod hmod
    have hmem : wholeCallbackRun.act t ∈ wholeCallback := by
      rw [show wholeCallbackRun.act t = _ from List.getD_eq_getElem _ _ ht]
      exact List.getElem_mem _
    rw [hmod, wholeCallback, List.mem_append, List.mem_replicate] at hmem
    rcases hmem with hfirst | ⟨-, hrest⟩
    · simp [firstPass] at hfirst
    · cases hrest
  have hwritten : (wholeCallbackRun.state 211).written = [[1, 0, 2, 0]] := by
    decide +kernel
  have hatomic := pool_is_atomic (r := wholeCallbackRun) (by decide) hquiet
    (Nat.le_refl 211)
  refine ⟨by decide +kernel, hwritten, ?_⟩
  rw [← hwritten]
  exact hatomic.outcome (by decide +kernel)

end Bounds

end Bucktoot.Ports.AudioThreads
