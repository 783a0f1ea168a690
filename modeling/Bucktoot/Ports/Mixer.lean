import Bucktoot.Verified.LittleEndian

/-!
# The mixer of `wave_player.c`

A voice (`WAVE_SAMPLE`) has a fractional position in frames.  `mix_sample` adds
its data to an output buffer frame by frame, moving the position by `g_speed`
after each one; `check_loop` wraps the position of a looping voice and ends a
one-shot voice that has left its data; `clamp_current_frame` does the same in
front of each buffer.  `mix_samples` clears the buffer and runs every playing
voice of a list over it.

## Arithmetic

`double` is a parameter `F` with the operations the source uses.  Results that
hold whatever the rounding are stated over `F`; results about exact positions
instantiate it with the rationals (`MixerExact`).

## Memory

The buffer and the sample data are lists of bytes and an access outside of
them reads zero or changes nothing.  So that such an access does not go
unnoticed, `Mix` records every byte offset of `sample->data` that is read,
every byte offset of `dst` that is written, and every divisor given to `fmod`.
-/

namespace Bucktoot.Ports.Mixer

open Bucktoot.Verified.LittleEndian

/-! ## Arithmetic and memory -/

/-- The operations on `double` that the usual classes do not have: `fmod`, and
the conversion to `int`, which truncates. -/
class Double (F : Type) where
  fmod : F → F → F
  toInt : F → Int

/-- The byte at an offset, zero outside of the block. -/
def byteAt (mem : List UInt8) (p : Int) : UInt8 :=
  if 0 ≤ p then mem.getD p.toNat 0 else 0

/-- The `SHORT` at a byte offset. -/
def shortAt (mem : List UInt8) (p : Int) : Int :=
  signed16 (word16 (byteAt mem p) (byteAt mem (p + 1)))

/-- Store a `SHORT` at a byte offset. -/
def putShort (mem : List UInt8) (p : Nat) (v : Int) : List UInt8 :=
  (mem.set p (UInt8.ofNat (v % 65536).toNat)).set (p + 1)
    (UInt8.ofNat ((v % 65536).toNat / 256))

/-- `clamp_short`. -/
def clampShort (val : Int) : Int :=
  if val > 32767 then 32767 else if val < -32768 then -32768 else val

/-! ## Voices -/

/-- `WAVE_SAMPLE`; `data` is the block the pointer points to. -/
structure WaveSample (F : Type) where
  data : List UInt8
  dataLen : Int
  sampleRate : Int
  channels : Int
  bytes : Int
  doLoop : Int
  loopStart : Int
  loopEnd : Int
  play : Int
  currentFrame : F
  speed : F
  deriving DecidableEq

/-- The globals the mixer reads: the device format and `g_speed`. -/
structure Globals (F : Type) where
  bytes : Nat
  channels : Nat
  speed : F

/-- The sixteen-bit stereo device, at a speed. -/
def stereo {F : Type} (speed : F) : Globals F := ⟨2, 2, speed⟩

section Model

variable {F : Type} [Add F] [Sub F] [Mul F] [Div F] [IntCast F] [LT F] [LE F]
  [DecidableLT F] [DecidableLE F] [Double F]

/-- `check_loop`. -/
def checkLoop (s : WaveSample F) (frameSize : F) : WaveSample F :=
  let cpos := s.currentFrame
  if s.doLoop ≠ 0 then
    let start : F := (s.loopStart : F) / frameSize
    let stop : F :=
      if s.loopEnd ≠ 0 then (s.loopEnd : F) / frameSize
      else (s.dataLen : F) / frameSize
    if cpos ≥ stop then { s with currentFrame := start }
    else if cpos < start then
      let back : F := stop - ((1 : Int) : F)
      if back < ((0 : Int) : F) then
        { s with currentFrame := ((0 : Int) : F) }
      else { s with currentFrame := back }
    else s
  else
    let stop : F := (s.dataLen : F) / frameSize
    if cpos ≥ stop then { s with play := 0 }
    else if cpos < ((0 : Int) : F) then { s with play := 0 }
    else s

/-- `clamp_current_frame`. -/
def clampCurrentFrame (s : WaveSample F) (frameSize frameCount : F) :
    WaveSample F :=
  if s.doLoop ≠ 0 then checkLoop s frameSize
  else if s.currentFrame ≥ frameCount then { s with play := 0 }
  else if s.currentFrame < ((0 : Int) : F) then { s with play := 0 }
  else s

/-- The locals of `mix_sample` that live across passes of its loop, and the
accesses made so far. -/
structure Mix (F : Type) where
  dst : List UInt8
  sample : WaveSample F
  reads : List Int
  writes : List Int
  divisors : List F

/-- The byte offset of the frame under the position. -/
def framePos (s : WaveSample F) (iframeSize : Int) (frameSize : F) : Int :=
  let pos := Double.toInt (s.currentFrame * frameSize)
  let q := pos.tmod iframeSize
  if q ≠ 0 then pos - q else pos

/-- `src_index` of the right channel. -/
def rightIndex (s : WaveSample F) : Int := if s.channels > 1 then 1 else 0

/-- The voice after the position has moved by one frame of output. -/
def stepFrame (g : Globals F) (frameSize frameCount : F) (s : WaveSample F) :
    WaveSample F :=
  let s' := checkLoop { s with currentFrame := s.currentFrame + g.speed }
    frameSize
  -- the loop is left in front of the `fmod` when the voice has ended
  if s'.play = 0 then s'
  else { s' with currentFrame := Double.fmod s'.currentFrame frameCount }

/-- One pass of the loop in `mix_sample`, at byte offset `i` of `dst`. -/
def mixFrame (g : Globals F) (iframeSize : Int) (frameSize frameCount : F)
    (i : Nat) (m : Mix F) : Mix F :=
  let pos := framePos m.sample iframeSize frameSize
  let right := pos + 2 * rightIndex m.sample
  let a := clampShort (shortAt m.dst i + shortAt m.sample.data pos)
  let dst := putShort m.dst i a
  let b := clampShort (shortAt dst (i + 2) + shortAt m.sample.data right)
  let sample := stepFrame g frameSize frameCount m.sample
  { dst := putShort dst (i + 2) b
    sample := sample
    reads := m.reads ++ [pos, pos + 1, right, right + 1]
    writes := m.writes ++ [(i : Int), i + 1, i + 2, i + 3]
    divisors :=
      if sample.play = 0 then m.divisors else m.divisors ++ [frameCount] }

/-- The loop in `mix_sample`.  The offset grows by the frame size of the
device, so as many passes as the buffer has bytes are enough for any device
with at least one byte to a frame. -/
def mixLoop (g : Globals F) (iframeSize : Int) (frameSize frameCount : F) :
    Nat → Nat → Mix F → Mix F
  | 0, _, m => m
  | fuel + 1, i, m =>
      if i < m.dst.length then
        let m' := mixFrame g iframeSize frameSize frameCount i m
        if m'.sample.play = 0 then m'
        else mixLoop g iframeSize frameSize frameCount fuel
          (i + g.bytes * g.channels) m'
      else m

/-- `mix_sample`; `dst_size` is the length of the buffer. -/
def mixSample (g : Globals F) (dst : List UInt8) (s : WaveSample F) : Mix F :=
  let iframeSize := s.bytes * s.channels
  if iframeSize ≤ 0 then ⟨dst, s, [], [], []⟩
  else
    let frameSize : F := (iframeSize : F)
    let frameCount : F := (s.dataLen : F) / frameSize
    let s' := clampCurrentFrame s frameSize frameCount
    if s'.play = 0 then ⟨dst, s', [], [], []⟩
    else mixLoop g iframeSize frameSize frameCount dst.length 0
      ⟨dst, s', [], [], []⟩

/-- The loop in `mix_samples`: the buffer and the list after every playing
voice has been mixed in. -/
def mixList (g : Globals F) :
    List UInt8 → List (WaveSample F) → List UInt8 × List (WaveSample F)
  | dst, [] => (dst, [])
  | dst, s :: rest =>
      if s.play ≠ 0 then
        let m := mixSample g dst s
        let out := mixList g m.dst rest
        (out.1, m.sample :: out.2)
      else
        let out := mixList g dst rest
        (out.1, s :: out.2)

/-- `mix_samples` on a buffer of `dstSize` bytes. -/
def mixSamples (g : Globals F) (dstSize : Nat) (list : List (WaveSample F)) :
    List UInt8 × List (WaveSample F) :=
  mixList g (List.replicate dstSize 0) list

end Model

end Bucktoot.Ports.Mixer
