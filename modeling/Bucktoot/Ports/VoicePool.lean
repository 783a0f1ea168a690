import Mathlib.Data.List.Forall2
import Bucktoot.Verified.FirstSlot
import Bucktoot.Ports.ReadWave
import Bucktoot.Ports.MixerTrack

/-!
# The voice pool of `wave_player.c`

`play_index` builds a voice from a loaded file and `add_sample` copies it to
the first slot of `g_sample_list` that is not playing; `clear_all` stops every
slot, `mod_speed` changes `g_speed`, and the audio callback mixes what plays.
Each of them holds the mutex while it touches the list, so each is one step of
the pool.

What the functions print is left out, and so is the count of playing slots
that `play_index` makes for this purpose.
-/

namespace Bucktoot.Ports.VoicePool

open Bucktoot.Verified.FirstSlot
open Bucktoot.Ports.Mixer
open Bucktoot.Ports.ReadWave (WaveFile)

section Model

variable {F : Type} [Add F] [Sub F] [Mul F] [Div F] [IntCast F] [LT F] [LE F]
  [DecidableLT F] [DecidableLE F] [Double F]

/-- A zeroed element of `g_sample_list`. -/
def zeroVoice : WaveSample F :=
  { data := [], dataLen := 0, sampleRate := 0, channels := 0, bytes := 0
    doLoop := 0, loopStart := 0, loopEnd := 0, play := 0
    currentFrame := ((0 : Int) : F), speed := ((0 : Int) : F) }

/-- The voice `ws` that `play_index` builds for a loaded file, or `none` where
it divides by a frame size of zero. -/
def startVoice (g : Globals F) (wf : WaveFile) (loop : Int) :
    Option (WaveSample F) :=
  let ws : WaveSample F :=
    { data := wf.wavData
      dataLen := wf.wavLen
      sampleRate := wf.sampleRate
      channels := wf.channels
      bytes := wf.bits / 8
      doLoop := loop
      loopStart := 0
      loopEnd := 0
      play := 1
      currentFrame := ((0 : Int) : F)
      speed := ((1 : Int) : F) }
  if g.speed < ((0 : Int) : F) ∧ ws.bytes ≠ 0 then
    if ws.bytes * ws.channels = 0 then none
    else
      let frameCount : F := (ws.dataLen.tdiv (ws.bytes * ws.channels) : Int)
      some { ws with currentFrame := frameCount - ((1 : Int) : F) }
  else some ws

/-- `add_sample`. -/
def addSample (list : List (WaveSample F)) (wav : WaveSample F) :
    List (WaveSample F) :=
  fillFirst (fun tmp : WaveSample F => tmp.play = 0) { wav with play := 1 } list

/-- What the functions of the pool work on: the device format and `g_speed`,
the loaded files and the voices. -/
structure World (F : Type) where
  globals : Globals F
  mywavs : Fin 100 → WaveFile
  list : List (WaveSample F)

/-- The file `play_index` finds at an index, `none` where it gives up. -/
def World.fileAt (w : World F) (i : Int) : Option WaveFile :=
  if h : 0 ≤ i ∧ i < 100 then
    let wf := w.mywavs ⟨i.toNat, by omega⟩
    if wf.fname = none then none else some wf
  else none

/-- `play_index`; `none` where it divides by zero. -/
def playIndex (w : World F) (i loop : Int) : Option (World F) :=
  match w.fileAt i with
  | none => some w
  | some wf =>
      match startVoice w.globals wf loop with
      | none => none
      | some ws => some { w with list := addSample w.list ws }

/-- `clear_all`. -/
def clearAll (w : World F) : World F :=
  { w with list := w.list.map fun s => { s with play := 0 } }

/-- `mod_speed`. -/
def modSpeed (w : World F) (mod : F) : World F :=
  { w with globals := { w.globals with speed := w.globals.speed + mod } }

/-- `audio_callback` with a buffer of `size` bytes. -/
def audioCallback (w : World F) (size : Nat) : World F :=
  { w with list := (mixSamples w.globals size w.list).2 }

/-- What can happen to the pool. -/
inductive Op (F : Type) where
  | play (i loop : Int)
  | clear
  | speed (mod : F)
  | callback (size : Nat)
  deriving DecidableEq

/-- One operation. -/
def step (w : World F) : Op F → Option (World F)
  | .play i loop => playIndex w i loop
  | .clear => some (clearAll w)
  | .speed mod => some (modSpeed w mod)
  | .callback size => some (audioCallback w size)

/-- The program starts with a zeroed list. -/
def World.init (g : Globals F) (mywavs : Fin 100 → WaveFile) : World F :=
  { globals := g, mywavs := mywavs, list := List.replicate 200 zeroVoice }

end Model

/-! ## Starting a voice -/

/-- The data, format and loop setting of a voice are those of a request. -/
structure OfRequest {F : Type} (wf : WaveFile) (loop : Int)
    (s : WaveSample F) : Prop where
  data : s.data = wf.wavData
  dataLen : s.dataLen = wf.wavLen
  bytes : s.bytes = wf.bits / 8
  channels : s.channels = wf.channels
  sampleRate : s.sampleRate = wf.sampleRate
  doLoop : s.doLoop = loop
  loopStart : s.loopStart = 0
  loopEnd : s.loopEnd = 0

theorem OfRequest.continues {F : Type} {wf : WaveFile} {loop : Int}
    {s t : WaveSample F} (h : OfRequest wf loop s) (hc : Continues s t) :
    OfRequest wf loop t := by
  rw [hc.fixed]
  exact ⟨h.data, h.dataLen, h.bytes, h.channels, h.sampleRate, h.doLoop,
    h.loopStart, h.loopEnd⟩

/-- So are those of the copy that `add_sample` stores. -/
theorem OfRequest.stored {F : Type} {wf : WaveFile} {loop : Int}
    {ws : WaveSample F} (h : OfRequest wf loop ws) :
    OfRequest wf loop { ws with play := 1 } :=
  ⟨h.data, h.dataLen, h.bytes, h.channels, h.sampleRate, h.doLoop,
    h.loopStart, h.loopEnd⟩

section Start

variable {F : Type} [Sub F] [IntCast F] [LT F] [DecidableLT F]

theorem startVoice_ofRequest {g : Globals F} {wf : WaveFile} {loop : Int}
    {ws : WaveSample F} (h : startVoice g wf loop = some ws) :
    OfRequest wf loop ws ∧ ws.play = 1 := by
  unfold startVoice at h
  dsimp only at h
  split at h
  · split at h
    · cases h
    · obtain rfl := Option.some.inj h
      exact ⟨⟨rfl, rfl, rfl, rfl, rfl, rfl, rfl, rfl⟩, rfl⟩
  · obtain rfl := Option.some.inj h
    exact ⟨⟨rfl, rfl, rfl, rfl, rfl, rfl, rfl, rfl⟩, rfl⟩

/-- A voice started while `g_speed` is not negative begins at its first
frame. -/
theorem startVoice_forward {g : Globals F} (h : ¬ g.speed < ((0 : Int) : F))
    (wf : WaveFile) (loop : Int) :
    ∃ ws : WaveSample F, startVoice g wf loop = some ws ∧
      ws.currentFrame = ((0 : Int) : F) := by
  unfold startVoice
  dsimp only
  rw [if_neg (fun hn => h hn.1)]
  exact ⟨_, rfl, rfl⟩

end Start

/-! ## What a callback does to the slots -/

section Callback

variable {F : Type} [Add F] [Sub F] [Mul F] [Div F] [IntCast F] [LT F] [LE F]
  [DecidableLT F] [DecidableLE F] [Double F]

theorem mixLoop_continues (g : Globals F) (iframeSize : Int)
    (frameSize frameCount : F) (fuel i : Nat) (m : Mix F) :
    Continues m.sample
      (mixLoop g iframeSize frameSize frameCount fuel i m).sample :=
  mixLoop_rel (fun m m' : Mix F => Continues m.sample m'.sample)
    (fun m => .refl m.sample) (fun _ _ _ h h' => h.trans h')
    (fun _ m => stepFrame_continues g frameSize frameCount m.sample) fuel i m

/-- Whatever the device format and the size of the buffer, mixing a voice only
moves it or ends it. -/
theorem mixSample_continues (g : Globals F) (dst : List UInt8)
    (s : WaveSample F) : Continues s (mixSample g dst s).sample := by
  have hclamp := checkLoop_continues s ((s.bytes * s.channels : Int) : F)
  rcases mixSample_cases g dst s with heq | heq | heq
  · rw [heq]
    exact .refl s
  · rw [heq]
    exact hclamp
  · have hloop := mixLoop_continues g (s.bytes * s.channels)
      ((s.bytes * s.channels : Int) : F)
      ((s.dataLen : F) / ((s.bytes * s.channels : Int) : F)) dst.length 0
      ⟨dst, checkLoop s ((s.bytes * s.channels : Int) : F), [], [], []⟩
    rw [heq]
    exact hclamp.trans hloop

/-- What mixing may do to a slot: a slot that plays is moved or ended, any
other is left alone. -/
def SlotMixed (s t : WaveSample F) : Prop :=
  Continues s t ∧ (s.play = 0 → t = s)

theorem mixList_slots (g : Globals F) (dst : List UInt8)
    (list : List (WaveSample F)) :
    List.Forall₂ SlotMixed list (mixList g dst list).2 := by
  induction list generalizing dst with
  | nil => exact .nil
  | cons s rest ih =>
      unfold mixList
      split
      · rename_i hplay
        exact .cons ⟨mixSample_continues g dst s, fun h => absurd h hplay⟩
          (ih _)
      · exact .cons ⟨.refl s, fun _ => rfl⟩ (ih _)

end Callback

end Bucktoot.Ports.VoicePool
