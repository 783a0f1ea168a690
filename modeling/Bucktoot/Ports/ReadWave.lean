import Bucktoot.Verified.LittleEndian
import Bucktoot.Verified.WhileLoop

/-!
# `read_wave_file`: the chunk walk of `wave_player.c`

The reader opens a file, checks the twelve-byte RIFF/WAVE header and then
loops: read an eight-byte chunk header into `buf`, act on it according to the
parser state, seek to the next header.  Three habits of the source are kept
exactly, because everything that goes wrong in the reader comes from them:

* a short `fread` is only logged, so `buf` keeps whatever it held behind the
  bytes that did arrive;
* a chunk size is an `int`, so a size with the top bit set seeks backwards;
* the body of a `fmt ` chunk is read without looking at the chunk's size.

The texts written to the log are left out: nothing in the program reads them.

## The stdio underneath

`fread` delivers the bytes that exist and no more, `fseek` past the end
succeeds, `fseek` before offset zero fails and leaves the position alone.
`long` and `size_t` are thirty-two bits wide, as in the Win32 configuration of
the project, so `ftell` reports failure from offset `2 ^ 31` on.
-/

namespace Bucktoot.Ports.ReadWave

open Bucktoot.Verified.LittleEndian
open Bucktoot.Verified.WhileLoop

/-! ## Streams -/

/-- An open stream: the bytes of the file and the current offset. -/
structure File where
  content : List UInt8
  pos : Nat

/-- The bytes `fread(_, 1, len, f)` delivers. -/
def File.fread (f : File) (len : Nat) : List UInt8 :=
  (f.content.drop f.pos).take len

/-- The stream after `fread` has delivered its bytes. -/
def File.afterRead (f : File) (len : Nat) : File :=
  { f with pos := f.pos + (f.fread len).length }

/-- `ftell`, with the error value where the offset does not fit a `long`. -/
def File.ftell (f : File) : Int :=
  if f.pos < 2147483648 then f.pos else -1

/-- Move to an absolute offset; a negative one is refused. -/
def File.seekTo (f : File) (target : Int) : File :=
  if 0 ≤ target then { f with pos := target.toNat } else f

/-- `fseek(f, offset, SEEK_SET)`. -/
def File.fseekSet (f : File) (offset : Int) : File := f.seekTo offset

/-- `fseek(f, delta, SEEK_CUR)`. -/
def File.fseekCur (f : File) (delta : Int) : File := f.seekTo (f.pos + delta)

/-- An `int` count converted to `size_t`. -/
def sizeT (n : Int) : Nat := (n % 4294967296).toNat

/-- `fread_data`: the flag it returns, the bytes that arrived and the stream
afterwards. -/
def freadData (f : File) (len : Int) : Bool × List UInt8 × File :=
  let got := f.fread (sizeT len)
  (signed32 got.length == len, got, f.afterRead (sizeT len))

/-! ## The stack buffer -/

/-- `BYTE buf[128]`. -/
abbrev Buf := Fin 128 → UInt8

/-- The buffer after `bytes` have been read into its front. -/
def Buf.fill (buf : Buf) (bytes : List UInt8) : Buf :=
  fun i => bytes.getD i (buf i)

/-- `get32bit` on the four bytes its argument points to. -/
def get32bit (b0 b1 b2 b3 : UInt8) : Int := signed32 (word32 b0 b1 b2 b3)

/-- `get16bit` on the two bytes its argument points to. -/
def get16bit (b0 b1 : UInt8) : Int := word16 b0 b1

/-- Four bytes that `strncmp(_, _, 4)` compares.  The literals compared with
have no zero byte in front, so the call is equality of the four bytes. -/
structure Tag where
  c0 : UInt8
  c1 : UInt8
  c2 : UInt8
  c3 : UInt8
  deriving DecidableEq, Repr

/-- `"RIFF"`. -/
def riffTag : Tag := ⟨0x52, 0x49, 0x46, 0x46⟩

/-- `"WAVE"`. -/
def waveTag : Tag := ⟨0x57, 0x41, 0x56, 0x45⟩

/-- `"fmt "`. -/
def fmtTag : Tag := ⟨0x66, 0x6d, 0x74, 0x20⟩

/-- `"data"`. -/
def dataTag : Tag := ⟨0x64, 0x61, 0x74, 0x61⟩

/-- The id in the front of the buffer. -/
def Buf.tag (buf : Buf) : Tag := ⟨buf 0, buf 1, buf 2, buf 3⟩

/-- The chunk size behind the id, as the signed value the source works with. -/
def Buf.size (buf : Buf) : Int := get32bit (buf 4) (buf 5) (buf 6) (buf 7)

/-- The sample rate in a `fmt ` body. -/
def Buf.sampleRate (buf : Buf) : Int :=
  get32bit (buf 4) (buf 5) (buf 6) (buf 7)

/-- The number of channels in a `fmt ` body. -/
def Buf.channels (buf : Buf) : Int := get16bit (buf 2) (buf 3)

/-- The number of bits in a `fmt ` body. -/
def Buf.bits (buf : Buf) : Int := get16bit (buf 14) (buf 15)

/-! ## The reader -/

/-- `WAVE_FILE`.  A null `fname` is `none`; `wav_data` is the block it points
to. -/
structure WaveFile where
  fname : Option String
  wavData : List UInt8
  wavLen : Int
  sampleRate : Int
  channels : Int
  bits : Int
  deriving DecidableEq, Repr

/-- `enum{FIND_FMT,FIND_DATA}`. -/
inductive ParseState where
  | findFmt
  | findData
  deriving DecidableEq, Repr

/-- The locals of `read_wave_file` that live across passes of its loop. -/
structure Parse where
  f : File
  buf : Buf
  state : ParseState
  sampleRate : Int
  channels : Int
  bits : Int

/-- One pass of the `while(1)` loop. -/
def chunkStep (malloc : Nat → Bool) (wfile : WaveFile) (w : Parse) :
    Outcome Parse (Bool × WaveFile) :=
  -- the flag of the header read is only logged
  let (_, got, f) := freadData w.f 8
  let buf := w.buf.fill got
  match w.state with
  | .findFmt =>
      let offset := f.ftell
      let delta := buf.size
      if buf.tag = fmtTag then
        let (ok, body, f') := freadData f 16
        let buf' := buf.fill body
        let next : Parse :=
          { f := (f'.fseekSet offset).fseekCur delta
            buf := buf'
            state := .findData
            sampleRate := w.sampleRate
            channels := w.channels
            bits := w.bits }
        -- a short body leaves the three fields as they were
        if ok then
          .again
            { next with
              sampleRate := buf'.sampleRate
              channels := buf'.channels
              bits := buf'.bits }
        else .again next
      else
        .again { w with f := (f.fseekSet offset).fseekCur delta, buf := buf }
  | .findData =>
      let val := buf.size
      if buf.tag = dataTag then
        if malloc (sizeT val) then
          let (ok, tmp, _) := freadData f val
          if ok then
            .leave (true,
              { wfile with
                wavData := tmp
                wavLen := val
                sampleRate := w.sampleRate
                channels := w.channels
                bits := w.bits })
          else .leave (false, wfile)
        else .leave (false, wfile)
      else
        .again { w with f := f.fseekCur val, buf := buf }

/-- The buffer after the twelve-byte header read. -/
def headerBuf (b : List UInt8) (buf : Buf) : Buf :=
  buf.fill (freadData ⟨b, 0⟩ 12).2.1

/-- The locals as the loop is entered. -/
def Parse.start (b : List UInt8) (buf : Buf) : Parse :=
  { f := (freadData ⟨b, 0⟩ 12).2.2
    buf := headerBuf b buf
    state := .findFmt
    sampleRate := 0
    channels := 0
    bits := 0 }

/-- The two `strncmp` tests in front of the loop. -/
def RiffHeader (buf : Buf) : Prop :=
  buf.tag = riffTag ∧ (⟨buf 8, buf 9, buf 10, buf 11⟩ : Tag) = waveTag

instance (buf : Buf) : Decidable (RiffHeader buf) := by
  unfold RiffHeader
  infer_instance

/-- `read_wave_file` with at most `fuel` passes of the chunk loop.  `fopen` is
the content of the file, or `none` where it cannot be opened; `buf` is what
the stack held before the call; `malloc` says which requests succeed. -/
def readWaveFile (fopen : Option (List UInt8)) (buf : Buf)
    (malloc : Nat → Bool) (wfile : WaveFile) (fuel : Nat) :
    Option (Bool × WaveFile) :=
  match fopen with
  | none => some (false, wfile)
  | some b =>
      if RiffHeader (headerBuf b buf) then
        run (chunkStep malloc wfile) fuel (Parse.start b buf)
      else some (false, wfile)

/-- The call returns `ok` and leaves `r` in the `WAVE_FILE`. -/
def Reads (fopen : Option (List UInt8)) (buf : Buf) (malloc : Nat → Bool)
    (wfile : WaveFile) (ok : Bool) (r : WaveFile) : Prop :=
  ∃ fuel, readWaveFile fopen buf malloc wfile fuel = some (ok, r)

/-- The call returns at all. -/
def ReadEnds (fopen : Option (List UInt8)) (buf : Buf) (malloc : Nat → Bool)
    (wfile : WaveFile) : Prop :=
  ∃ ok r, Reads fopen buf malloc wfile ok r

/-! ## What the buffer holds -/

@[simp] theorem Buf.fill_nil (buf : Buf) : buf.fill [] = buf := by
  funext i
  simp [Buf.fill]

/-! ## Streams: the facts the walk needs -/

@[simp] theorem File.seekTo_content (f : File) (target : Int) :
    (f.seekTo target).content = f.content := by
  unfold File.seekTo
  split <;> rfl

@[simp] theorem File.fseekCur_content (f : File) (delta : Int) :
    (f.fseekCur delta).content = f.content := f.seekTo_content _

theorem File.seekTo_pos (f : File) (target : Int) :
    (f.seekTo target).pos = if 0 ≤ target then target.toNat else f.pos := by
  unfold File.seekTo
  split <;> rfl

theorem File.fread_length (f : File) (len : Nat) :
    (f.fread len).length = min len (f.content.length - f.pos) := by
  simp [File.fread]

/-- A read that lies inside the file is complete. -/
theorem File.fread_length_of_le {f : File} {len : Nat}
    (h : f.pos + len ≤ f.content.length) : (f.fread len).length = len := by
  rw [File.fread_length]
  omega

/-- At or behind the end of the file nothing arrives. -/
theorem File.fread_of_end {f : File} (h : f.content.length ≤ f.pos)
    (len : Nat) : f.fread len = [] := by
  simp [File.fread, List.drop_eq_nil_of_le h]

theorem sizeT_lt (n : Int) : sizeT n < 4294967296 := by
  unfold sizeT
  omega

/-- A size read as an `int` and passed on as a `size_t` is the size again. -/
theorem sizeT_signed32 {n : Nat} (h : n < 4294967296) :
    sizeT (signed32 n) = n := by
  unfold sizeT signed32
  split <;> omega

/-- `fread_data` reports success exactly when every byte asked for arrived. -/
theorem freadData_ok_iff (f : File) {len : Int}
    (hlo : -2147483648 ≤ len) (hhi : len < 2147483648) :
    (freadData f len).1 = true ↔
      f.content.length - f.pos ≥ sizeT len := by
  have hlen := f.fread_length (sizeT len)
  have hlt := sizeT_lt len
  simp only [freadData, beq_iff_eq, hlen]
  unfold sizeT signed32 at *
  split <;> omega

/-! ## The call and its loop -/

theorem reads_iff_returns {b : List UInt8} {buf : Buf}
    (h : RiffHeader (headerBuf b buf)) (malloc : Nat → Bool)
    (wfile : WaveFile) (ok : Bool) (r : WaveFile) :
    Reads (some b) buf malloc wfile ok r ↔
      Returns (chunkStep malloc wfile) (Parse.start b buf) (ok, r) := by
  simp only [Reads, Returns, readWaveFile, if_pos h]

theorem reads_of_not_riffHeader {b : List UInt8} {buf : Buf}
    (h : ¬ RiffHeader (headerBuf b buf)) (malloc : Nat → Bool)
    (wfile : WaveFile) (ok : Bool) (r : WaveFile) :
    Reads (some b) buf malloc wfile ok r ↔ ok = false ∧ r = wfile := by
  simp only [Reads, readWaveFile, if_neg h, exists_const, Option.some.injEq,
    Prod.mk.injEq]
  exact ⟨fun h => ⟨h.1.symm, h.2.symm⟩, fun h => ⟨h.1.symm, h.2.symm⟩⟩

theorem readEnds_iff_terminates {b : List UInt8} {buf : Buf}
    (h : RiffHeader (headerBuf b buf)) (malloc : Nat → Bool)
    (wfile : WaveFile) :
    ReadEnds (some b) buf malloc wfile ↔
      Terminates (chunkStep malloc wfile) (Parse.start b buf) := by
  simp only [ReadEnds, Terminates, reads_iff_returns h, Prod.exists]

end Bucktoot.Ports.ReadWave
