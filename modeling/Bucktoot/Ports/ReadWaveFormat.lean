import Bucktoot.Ports.ReadWaveForward

/-!
# Well-formed RIFF/WAVE files and what the reader makes of them

`RiffFile` is the format as a writer sees it: a list of chunks in front of the
`fmt ` chunk, a list of chunks between it and the `data` chunk, and bytes
behind.  A chunk is its id, its length, its body and, where the length is odd,
one pad byte.

The reader moves on by the declared size and knows nothing of the pad byte, so
`decodes_of_aligned` asks every chunk in front of the `data` chunk for an even
length.  It also asks for lengths below `2 ^ 31`, which a size read as `int`
needs, and for a `fmt ` chunk whose body starts below `2 ^ 31`, which `ftell`
needs.  `oddFile` is a file with one odd chunk: behind it the reader takes the
pad byte for the first byte of a header.
-/

namespace Bucktoot.Ports.ReadWave

open Bucktoot.Verified.LittleEndian
open Bucktoot.Verified.WhileLoop

/-! ## The format -/

/-- The four bytes of an id. -/
def Tag.bytes (t : Tag) : List UInt8 := [t.c0, t.c1, t.c2, t.c3]

/-- A chunk whose length fits its length field. -/
structure Chunk where
  id : Tag
  body : List UInt8
  pad : UInt8
  length_lt : body.length < 4294967296

/-- Id, little-endian length, body, and a pad byte behind an odd body. -/
def Chunk.bytes (c : Chunk) : List UInt8 :=
  c.id.bytes ++ (bytes32 c.body.length ++
    (c.body ++ if c.body.length % 2 = 1 then [c.pad] else []))

/-- The fields of a `fmt ` chunk, with whatever follows the first sixteen
bytes of its body. -/
structure Fmt where
  formatTag : Nat
  channels : Nat
  sampleRate : Nat
  byteRate : Nat
  blockAlign : Nat
  bits : Nat
  extra : List UInt8
  channels_lt : channels < 65536
  sampleRate_lt : sampleRate < 4294967296
  bits_lt : bits < 65536
  extra_lt : extra.length + 16 < 4294967296

/-- The body of a `fmt ` chunk. -/
def Fmt.bytes (f : Fmt) : List UInt8 :=
  bytes16 f.formatTag ++ bytes16 f.channels ++ bytes32 f.sampleRate ++
    bytes32 f.byteRate ++ bytes16 f.blockAlign ++ bytes16 f.bits ++ f.extra

theorem Fmt.bytes_length (f : Fmt) : f.bytes.length = 16 + f.extra.length := by
  simp only [Fmt.bytes, List.length_append, bytes16_length, bytes32_length]

theorem Fmt.channels_read (f : Fmt) :
    get16bit (byteAt f.bytes 2) (byteAt f.bytes 3) = f.channels := by
  have h2 : byteAt f.bytes 2 = UInt8.ofNat f.channels := rfl
  have h3 : byteAt f.bytes 3 = UInt8.ofNat (f.channels / 256) := rfl
  rw [h2, h3, get16bit, word16_ofNat f.channels_lt]

theorem Fmt.sampleRate_read (f : Fmt) :
    get32bit (byteAt f.bytes 4) (byteAt f.bytes 5) (byteAt f.bytes 6)
      (byteAt f.bytes 7) = signed32 f.sampleRate := by
  have h4 : byteAt f.bytes 4 = UInt8.ofNat f.sampleRate := rfl
  have h5 : byteAt f.bytes 5 = UInt8.ofNat (f.sampleRate / 256) := rfl
  have h6 : byteAt f.bytes 6 = UInt8.ofNat (f.sampleRate / 65536) := rfl
  have h7 : byteAt f.bytes 7 =
    UInt8.ofNat (f.sampleRate / 65536 / 256) := rfl
  rw [h4, h5, h6, h7, get32bit, word32_ofNat f.sampleRate_lt]

theorem Fmt.bits_read (f : Fmt) :
    get16bit (byteAt f.bytes 14) (byteAt f.bytes 15) = f.bits := by
  have h14 : byteAt f.bytes 14 = UInt8.ofNat f.bits := rfl
  have h15 : byteAt f.bytes 15 = UInt8.ofNat (f.bits / 256) := rfl
  rw [h14, h15, get16bit, word16_ofNat f.bits_lt]

/-- A RIFF/WAVE file. -/
structure RiffFile where
  riffSize : Nat
  before : List Chunk
  fmt : Fmt
  fmtPad : UInt8
  between : List Chunk
  payload : List UInt8
  dataPad : UInt8
  tail : List UInt8
  before_ids : ∀ c ∈ before, c.id ≠ fmtTag
  between_ids : ∀ c ∈ between, c.id ≠ dataTag
  payload_lt : payload.length < 2147483648

/-- The `fmt ` chunk of a file. -/
def RiffFile.fmtChunk (f : RiffFile) : Chunk :=
  ⟨fmtTag, f.fmt.bytes, f.fmtPad, by
    have := f.fmt.bytes_length
    have := f.fmt.extra_lt
    omega⟩

/-- The `data` chunk of a file. -/
def RiffFile.dataChunk (f : RiffFile) : Chunk :=
  ⟨dataTag, f.payload, f.dataPad, by have := f.payload_lt; omega⟩

/-- A list of chunks, one behind the other. -/
def chunkBytes (cs : List Chunk) : List UInt8 := cs.flatMap Chunk.bytes

/-- The twelve bytes in front of the chunks. -/
def RiffFile.head (f : RiffFile) : List UInt8 :=
  riffTag.bytes ++ bytes32 f.riffSize ++ waveTag.bytes

/-- The bytes of a file. -/
def RiffFile.bytes (f : RiffFile) : List UInt8 :=
  f.head ++ (chunkBytes f.before ++ (f.fmtChunk.bytes ++
    (chunkBytes f.between ++ (f.dataChunk.bytes ++ f.tail))))

/-- What a reader of the format puts in a `WAVE_FILE`.  The sample rate is a
thirty-two-bit field kept in an `int`. -/
def RiffFile.contents (f : RiffFile) (wfile : WaveFile) : WaveFile :=
  { wfile with
    wavData := f.payload
    wavLen := f.payload.length
    sampleRate := signed32 f.fmt.sampleRate
    channels := f.fmt.channels
    bits := f.fmt.bits }

/-- The reader decodes the file, whatever the stack held and whatever was in
the `WAVE_FILE`, if the payload can be allocated. -/
def Decodes (f : RiffFile) : Prop :=
  ∀ (buf : Buf) (malloc : Nat → Bool) (wfile : WaveFile),
    malloc f.payload.length = true →
    Reads (some f.bytes) buf malloc wfile true (f.contents wfile)

/-- A chunk the reader moves past correctly: nothing to pad, and a size that
is not negative. -/
def Chunk.Plain (c : Chunk) : Prop :=
  c.body.length % 2 = 0 ∧ c.body.length < 2147483648

/-- Every chunk in front of the `data` chunk is plain and the `fmt ` body
starts at an offset that fits a `long`. -/
structure RiffFile.Aligned (f : RiffFile) : Prop where
  before : ∀ c ∈ f.before, c.Plain
  fmt : f.fmtChunk.Plain
  between : ∀ c ∈ f.between, c.Plain
  fmtOffset : (f.head ++ chunkBytes f.before).length + 8 < 2147483648

/-! ## A chunk in its place -/

theorem byteAt_append (pre l : List UInt8) (i : Nat) :
    byteAt (pre ++ l) (pre.length + i) = byteAt l i := by
  rw [byteAt, List.getD_append_right _ _ _ _ (by omega), byteAt]
  congr 1
  omega

section Place

variable (pre rest : List UInt8) (c : Chunk)

theorem tagAt_place : tagAt (pre ++ (c.bytes ++ rest)) pre.length = c.id := by
  have hb := byteAt_append pre (c.bytes ++ rest)
  have h0 := hb 0
  rw [Nat.add_zero] at h0
  simp only [tagAt, h0, hb]
  rfl

theorem sizeAt_place :
    sizeAt (pre ++ (c.bytes ++ rest)) pre.length = c.body.length := by
  simp only [sizeAt, byteAt_append]
  exact word32_ofNat c.length_lt

/-- The body of a placed chunk lies eight bytes behind its start. -/
theorem exists_place : ∃ head tail : List UInt8, head.length = pre.length + 8 ∧
    pre ++ (c.bytes ++ rest) = head ++ (c.body ++ tail) := by
  refine ⟨pre ++ (c.id.bytes ++ bytes32 c.body.length),
    (if c.body.length % 2 = 1 then [c.pad] else []) ++ rest, ?_, ?_⟩
  · simp [Tag.bytes]
  · simp [Chunk.bytes]

theorem bodyAt_place {i : Nat} (hi : i < c.body.length) :
    byteAt (pre ++ (c.bytes ++ rest)) (pre.length + 8 + i) =
      byteAt c.body i := by
  obtain ⟨head, tail, hlen, heq⟩ := exists_place pre rest c
  rw [heq, ← hlen, byteAt_append, byteAt, List.getD_append _ _ _ _ hi, byteAt]

theorem drop_place :
    ((pre ++ (c.bytes ++ rest)).drop (pre.length + 8)).take c.body.length =
      c.body := by
  obtain ⟨head, tail, hlen, heq⟩ := exists_place pre rest c
  rw [heq, ← hlen, List.drop_left, List.take_left]

theorem nextChunk_place :
    nextChunk (pre ++ (c.bytes ++ rest)) pre.length =
      pre.length + 8 + c.body.length := by
  rw [nextChunk, sizeAt_place]

theorem Chunk.bytes_length :
    c.bytes.length = 8 + c.body.length + c.body.length % 2 := by
  unfold Chunk.bytes
  split <;> simp [Tag.bytes] <;> omega

theorem headerFits_place (h : c.body.length < 2147483648) :
    HeaderFits (pre ++ (c.bytes ++ rest)) pre.length := by
  refine ⟨?_, by rw [sizeAt_place]; exact h⟩
  have := c.bytes_length
  simp only [List.length_append]
  omega

/-- Behind a plain chunk the walk stands where the next chunk starts. -/
theorem nextChunk_plain (h : c.Plain) :
    nextChunk (pre ++ (c.bytes ++ rest)) pre.length =
      (pre ++ c.bytes).length := by
  have hlen := c.bytes_length
  have heven := h.1
  rw [nextChunk_place, List.length_append]
  omega

end Place

/-- **Walking over a list of chunks.**  Plain chunks without the wanted id are
visited one after the other, and clean ground behind them is clean ground in
front of them. -/
theorem walk_chunks {tag : Tag} (cs : List Chunk) :
    ∀ (pre rest : List UInt8), (∀ c ∈ cs, c.id ≠ tag) → (∀ c ∈ cs, c.Plain) →
    Visits (pre ++ (chunkBytes cs ++ rest)) tag pre.length
        (pre ++ chunkBytes cs).length ∧
      (CleanAhead (pre ++ (chunkBytes cs ++ rest)) tag
          (pre ++ chunkBytes cs).length →
        CleanAhead (pre ++ (chunkBytes cs ++ rest)) tag pre.length) := by
  induction cs with
  | nil =>
      intro pre rest _ _
      simp only [chunkBytes, List.flatMap_nil, List.append_nil]
      exact ⟨.refl, id⟩
  | cons c cs ih =>
      intro pre rest hids hplain
      have hc := hplain c (by simp)
      have hb : pre ++ (chunkBytes (c :: cs) ++ rest) =
          pre ++ (c.bytes ++ (chunkBytes cs ++ rest)) := by
        simp [chunkBytes]
      have hb' : pre ++ (chunkBytes (c :: cs) ++ rest) =
          (pre ++ c.bytes) ++ (chunkBytes cs ++ rest) := by
        simp [chunkBytes]
      have hend : (pre ++ chunkBytes (c :: cs)).length =
          ((pre ++ c.bytes) ++ chunkBytes cs).length := by
        simp [chunkBytes]
      obtain ⟨hvisits, hclean⟩ := ih (pre ++ c.bytes) rest
        (fun d hd => hids d (by simp [hd]))
        (fun d hd => hplain d (by simp [hd]))
      rw [← hb'] at hvisits hclean
      rw [hend]
      have hnext := nextChunk_plain pre (chunkBytes cs ++ rest) c hc
      have hoff : ¬ ChunkIs (pre ++ (c.bytes ++ (chunkBytes cs ++ rest))) tag
          pre.length := by
        unfold ChunkIs
        rw [tagAt_place]
        exact hids c (by simp)
      rw [← hb] at hnext hoff
      refine ⟨.head ⟨hoff, hnext.symm⟩ hvisits, fun h => ?_⟩
      refine cleanAhead_of_next ?_ (by rw [hnext]; exact hclean h)
      rw [hb]
      exact headerFits_place pre _ c hc.2

/-! ## The walk over a well-formed file -/

namespace RiffFile

variable (f : RiffFile)

/-- The bytes in front of the `fmt ` chunk. -/
def fmtPre : List UInt8 := f.head ++ chunkBytes f.before

/-- The bytes in front of the `data` chunk. -/
def dataPre : List UInt8 :=
  f.fmtPre ++ f.fmtChunk.bytes ++ chunkBytes f.between

theorem head_length : f.head.length = 12 := rfl

theorem bytes_eq_fmt : f.bytes = f.fmtPre ++ (f.fmtChunk.bytes ++
    (chunkBytes f.between ++ (f.dataChunk.bytes ++ f.tail))) := by
  simp [bytes, fmtPre]

theorem bytes_eq_between : f.bytes = (f.fmtPre ++ f.fmtChunk.bytes) ++
    (chunkBytes f.between ++ (f.dataChunk.bytes ++ f.tail)) := by
  simp [bytes, fmtPre]

theorem bytes_eq_data :
    f.bytes = f.dataPre ++ (f.dataChunk.bytes ++ f.tail) := by
  simp [bytes, dataPre, fmtPre]

theorem sizeAt_data : sizeAt f.bytes f.dataPre.length = f.payload.length := by
  rw [f.bytes_eq_data]
  exact sizeAt_place _ _ _

theorem dataInside : nextChunk f.bytes f.dataPre.length ≤ f.bytes.length := by
  have hnext := nextChunk_place f.dataPre f.tail f.dataChunk
  have hlen := f.dataChunk.bytes_length
  rw [← f.bytes_eq_data] at hnext
  rw [hnext, f.bytes_eq_data]
  simp only [List.length_append]
  omega

variable {f}

/-- From offset 12 the walk comes to the `fmt ` chunk first. -/
theorem Aligned.firstFmt (h : f.Aligned) :
    FirstChunk f.bytes fmtTag 12 f.fmtPre.length ∧
      CleanAhead f.bytes fmtTag 12 := by
  obtain ⟨hvisits, hclean⟩ := walk_chunks f.before f.head
    (f.fmtChunk.bytes ++ (chunkBytes f.between ++
      (f.dataChunk.bytes ++ f.tail))) f.before_ids h.before
  have hb : f.head ++ (chunkBytes f.before ++ (f.fmtChunk.bytes ++
      (chunkBytes f.between ++ (f.dataChunk.bytes ++ f.tail)))) =
      f.bytes := rfl
  rw [hb, f.head_length] at hvisits hclean
  have htag : tagAt f.bytes f.fmtPre.length = fmtTag := by
    rw [f.bytes_eq_fmt]
    exact tagAt_place _ _ _
  refine ⟨⟨hvisits, htag⟩, hclean (cleanAhead_of_target ?_ htag)⟩
  rw [f.bytes_eq_fmt]
  exact headerFits_place f.fmtPre _ _ h.fmt.2

/-- From behind the `fmt ` chunk the walk comes to the `data` chunk first. -/
theorem Aligned.firstData (h : f.Aligned) :
    FirstChunk f.bytes dataTag (nextChunk f.bytes f.fmtPre.length)
        f.dataPre.length ∧
      CleanAhead f.bytes dataTag (nextChunk f.bytes f.fmtPre.length) := by
  obtain ⟨hvisits, hclean⟩ := walk_chunks f.between
    (f.fmtPre ++ f.fmtChunk.bytes) (f.dataChunk.bytes ++ f.tail)
    f.between_ids h.between
  have hnext := nextChunk_plain f.fmtPre
    (chunkBytes f.between ++ (f.dataChunk.bytes ++ f.tail)) f.fmtChunk h.fmt
  rw [← f.bytes_eq_fmt] at hnext
  rw [← f.bytes_eq_between, ← hnext] at hvisits hclean
  have htag : tagAt f.bytes f.dataPre.length = dataTag := by
    rw [f.bytes_eq_data]
    exact tagAt_place _ _ _
  refine ⟨⟨hvisits, htag⟩, hclean (cleanAhead_of_target ?_ htag)⟩
  have hfits := headerFits_place f.dataPre f.tail f.dataChunk f.payload_lt
  rw [← f.bytes_eq_data] at hfits
  exact hfits

theorem Aligned.fmtFits (h : f.Aligned) :
    FmtFits f.bytes f.fmtPre.length := by
  have hsize : sizeAt f.bytes f.fmtPre.length = f.fmt.bytes.length := by
    rw [f.bytes_eq_fmt]
    exact sizeAt_place _ _ _
  have hlen := f.fmt.bytes_length
  have hchunk : f.fmtChunk.bytes.length =
      8 + f.fmt.bytes.length + f.fmt.bytes.length % 2 :=
    f.fmtChunk.bytes_length
  refine ⟨by omega, ?_, h.fmtOffset⟩
  rw [nextChunk, hsize, f.bytes_eq_fmt]
  simp only [List.length_append]
  omega

theorem Aligned.cleanWalk (h : f.Aligned) : CleanWalk f.bytes := by
  refine ⟨h.firstFmt.2, fun p hp => ?_⟩
  obtain rfl := hp.unique h.firstFmt.1
  exact ⟨h.fmtFits, h.firstData.2⟩

variable (f)

/-- The bytes of the `fmt ` body are read back as its fields. -/
theorem decoded_eq_contents (wfile : WaveFile) :
    decoded wfile f.bytes f.fmtPre.length f.dataPre.length =
      f.contents wfile := by
  have hfmt : ∀ i, i < 16 →
      byteAt f.bytes (f.fmtPre.length + 8 + i) = byteAt f.fmt.bytes i := by
    intro i hi
    have hlen := f.fmt.bytes_length
    rw [f.bytes_eq_fmt]
    exact bodyAt_place f.fmtPre _ f.fmtChunk
      (show i < f.fmt.bytes.length by omega)
  have hdata : (f.bytes.drop (f.dataPre.length + 8)).take f.payload.length =
      f.payload := by
    rw [f.bytes_eq_data]
    exact drop_place f.dataPre f.tail f.dataChunk
  simp only [decoded, contents, f.sizeAt_data, hdata, hfmt 2 (by omega),
    hfmt 3 (by omega), hfmt 4 (by omega), hfmt 5 (by omega),
    hfmt 6 (by omega), hfmt 7 (by omega), hfmt 14 (by omega),
    hfmt 15 (by omega), f.fmt.sampleRate_read, f.fmt.channels_read,
    f.fmt.bits_read]

end RiffFile

/-- **Decode after encode.**  A file whose chunks in front of the `data` chunk
are plain, with a `fmt ` chunk below `2 ^ 31`, is decoded to its contents. -/
theorem decodes_of_aligned (f : RiffFile) (h : f.Aligned) : Decodes f := by
  intro buf malloc wfile hmalloc
  have h12 : 12 ≤ f.bytes.length := by
    simp [RiffFile.bytes, f.head_length]
  have hriff : RiffHeader (headerBuf f.bytes buf) :=
    (riffHeader_iff h12 buf).2 ⟨rfl, rfl⟩
  refine (reads_iff_of_cleanWalk malloc wfile h12 hriff h.cleanWalk _ _).2
    ⟨_, _, h.firstFmt.1, h.firstData.1, ?_⟩
  rw [outcomeAt, f.sizeAt_data, if_pos ⟨hmalloc, f.dataInside⟩,
    f.decoded_eq_contents]

/-- A file with a `LIST` chunk of four bytes in front, an oversized `fmt `
chunk, a `fact` chunk between and bytes behind an odd payload. -/
def sampleFile : RiffFile where
  riffSize := 60
  before := [⟨⟨0x4c, 0x49, 0x53, 0x54⟩, [1, 2, 3, 4], 0, by decide⟩]
  fmt := ⟨1, 2, 44100, 176400, 4, 16, [0, 0], by decide, by decide, by decide,
    by decide⟩
  fmtPad := 0
  between := [⟨⟨0x66, 0x61, 0x63, 0x74⟩, [9, 9], 0, by decide⟩]
  payload := [5, 6, 7]
  dataPad := 0
  tail := [1, 1]
  before_ids := by decide
  between_ids := by decide
  payload_lt := by decide

theorem sampleFile_decodes :
    Decodes sampleFile ∧ sampleFile.payload = [5, 6, 7] :=
  ⟨decodes_of_aligned sampleFile
    { before := by unfold Chunk.Plain; decide
      fmt := by unfold Chunk.Plain; decide
      between := by unfold Chunk.Plain; decide
      fmtOffset := by decide }, rfl⟩

/-- A file with a chunk of one byte in front of the `fmt ` chunk. -/
def oddFile : RiffFile where
  riffSize := 56
  before := [⟨⟨0x6a, 0x75, 0x6e, 0x6b⟩, [0], 0, by decide⟩]
  fmt := ⟨1, 1, 44100, 88200, 2, 16, [], by decide, by decide, by decide,
    by decide⟩
  fmtPad := 0
  between := []
  payload := [7, 0]
  dataPad := 0
  tail := []
  before_ids := by decide
  between_ids := by decide
  payload_lt := by decide

/-- Behind the odd chunk the pad byte and the id of the `fmt ` chunk make a
header whose size leads out of the file, and the call does not return. -/
theorem oddFile_not_decodes : ¬ Decodes oddFile := by
  intro hdec
  have hr := hdec (fun _ => 0) (fun _ => true) freshWave rfl
  rw [reads_iff_returns (by decide)] at hr
  let w := Parse.start oddFile.bytes (fun _ => 0)
  have hreach : Reaches (chunkStep (fun _ => true) freshWave) w w.skip.skip :=
    .tail (.single (chunkStep_skip _ _ w (by decide)))
      (chunkStep_skip _ _ w.skip (by decide))
  refine not_terminates_of_end (fun _ => true) freshWave w.skip.skip
    (by decide) (by decide) (by decide) ?_
  exact (terminates_reaches_iff hreach).1 ⟨_, hr⟩

end Bucktoot.Ports.ReadWave
