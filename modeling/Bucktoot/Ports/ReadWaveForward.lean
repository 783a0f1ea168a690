import Mathlib.Data.List.GetD
import Bucktoot.Ports.ReadWaveWalk

/-!
# Files the reader walks forwards

The cursor walk of `ReadWaveWalk` follows the loop into every corner.  On a
file where each header it comes to is complete and has a size below `2 ^ 31`
the leftovers in the buffer and the signed sizes play no part, and the walk is
arithmetic on offsets: `nextChunk` adds the chunk's size to the offset behind
its header.

`CleanToData` says that the walk over a file is of this kind in front of its
`data` header, and `reads_iff_of_cleanToData` says what the call then does: it
takes the first `fmt ` chunk from offset 12, the first `data` chunk behind it,
and returns their contents, with the size of the second as an `int`.  Under
`CleanWalk` that size is not negative either.  What the reader accepts and what
it decodes are both read off this one equivalence.
-/

namespace Bucktoot.Ports.ReadWave

open Bucktoot.Verified.LittleEndian
open Bucktoot.Verified.WhileLoop

/-! ## Chunks of a file by offset -/

/-- The byte at an offset of the file. -/
def byteAt (b : List UInt8) (p : Nat) : UInt8 := b.getD p 0

/-- The id of the chunk at an offset. -/
def tagAt (b : List UInt8) (p : Nat) : Tag :=
  ⟨byteAt b p, byteAt b (p + 1), byteAt b (p + 2), byteAt b (p + 3)⟩

/-- The declared size of the chunk at an offset. -/
def sizeAt (b : List UInt8) (p : Nat) : Nat :=
  word32 (byteAt b (p + 4)) (byteAt b (p + 5)) (byteAt b (p + 6))
    (byteAt b (p + 7))

/-- The offset behind the chunk at an offset. -/
def nextChunk (b : List UInt8) (p : Nat) : Nat := p + 8 + sizeAt b p

/-- The header at an offset is complete and its size is not negative as an
`int`. -/
def HeaderFits (b : List UInt8) (p : Nat) : Prop :=
  p + 8 ≤ b.length ∧ sizeAt b p < 2147483648

/-- The `fmt ` chunk at an offset has room for the sixteen bytes read from it,
lies inside the file, and its body starts where `ftell` can say so. -/
def FmtFits (b : List UInt8) (p : Nat) : Prop :=
  16 ≤ sizeAt b p ∧ nextChunk b p ≤ b.length ∧ p + 8 < 2147483648

theorem sizeAt_lt (b : List UInt8) (p : Nat) : sizeAt b p < 4294967296 :=
  word32_lt _ _ _ _

instance (b : List UInt8) (p : Nat) : Decidable (HeaderFits b p) := by
  unfold HeaderFits
  infer_instance

instance (b : List UInt8) (p : Nat) : Decidable (FmtFits b p) := by
  unfold FmtFits
  infer_instance

/-- The chunk at an offset has the given id. -/
def ChunkIs (b : List UInt8) (tag : Tag) (p : Nat) : Prop := tagAt b p = tag

/-- The chunks from `p` on, up to the first one with the given id. -/
def Visits (b : List UInt8) (tag : Tag) : Nat → Nat → Prop :=
  Passing (ChunkIs b tag) (nextChunk b)

/-- The first chunk from `p` on that has the given id. -/
def FirstChunk (b : List UInt8) (tag : Tag) : Nat → Nat → Prop :=
  FirstHit (ChunkIs b tag) (nextChunk b)

/-- Every header from `p` on, up to the first one with the given id, fits. -/
def CleanAhead (b : List UInt8) (tag : Tag) (p : Nat) : Prop :=
  ∀ q, Visits b tag p q → HeaderFits b q

/-- Every header the walk comes to before it has found its `data` chunk fits,
and so does the `fmt ` chunk. -/
def CleanWalk (b : List UInt8) : Prop :=
  CleanAhead b fmtTag 12 ∧
    ∀ p, FirstChunk b fmtTag 12 p →
      FmtFits b p ∧ CleanAhead b dataTag (nextChunk b p)

/-- Every header from `p` on, up to the first one with the given id, is
complete, and the sizes in front of that one are not negative. -/
def CleanUpTo (b : List UInt8) (tag : Tag) (p : Nat) : Prop :=
  ∀ q, Visits b tag p q →
    q + 8 ≤ b.length ∧ (tagAt b q ≠ tag → sizeAt b q < 2147483648)

/-- Every header the walk comes to is complete, the `fmt ` chunk fits, and so
do the headers in front of the `data` header. -/
def CleanToData (b : List UInt8) : Prop :=
  CleanAhead b fmtTag 12 ∧
    ∀ p, FirstChunk b fmtTag 12 p →
      FmtFits b p ∧ CleanUpTo b dataTag (nextChunk b p)

theorem CleanAhead.upTo {b : List UInt8} {tag : Tag} {p : Nat}
    (h : CleanAhead b tag p) : CleanUpTo b tag p :=
  fun q hq => ⟨(h q hq).1, fun _ => (h q hq).2⟩

theorem CleanWalk.toData {b : List UInt8} (h : CleanWalk b) : CleanToData b :=
  ⟨h.1, fun p hp => ⟨(h.2 p hp).1, (h.2 p hp).2.upTo⟩⟩

theorem CleanUpTo.complete {b : List UInt8} {tag : Tag} {p : Nat}
    (h : CleanUpTo b tag p) : p + 8 ≤ b.length := (h p .refl).1

/-- In front of the header that is looked for, every header fits. -/
theorem CleanUpTo.fits {b : List UInt8} {tag : Tag} {p : Nat}
    (h : CleanUpTo b tag p) (ht : tagAt b p ≠ tag) : HeaderFits b p :=
  ⟨h.complete, (h p .refl).2 ht⟩

theorem CleanUpTo.next {b : List UInt8} {tag : Tag} {p : Nat}
    (h : CleanUpTo b tag p) (ht : tagAt b p ≠ tag) :
    CleanUpTo b tag (nextChunk b p) :=
  fun q hq => h q (.head ⟨ht, rfl⟩ hq)

theorem cleanAhead_of_target {b : List UInt8} {tag : Tag} {p : Nat}
    (h : HeaderFits b p) (ht : tagAt b p = tag) : CleanAhead b tag p := by
  intro q hq
  rw [hq.eq_of_target ht]
  exact h

theorem cleanAhead_of_next {b : List UInt8} {tag : Tag} {p : Nat}
    (h : HeaderFits b p) (hnext : CleanAhead b tag (nextChunk b p)) :
    CleanAhead b tag p := by
  intro q hq
  cases Relation.ReflTransGen.cases_head hq with
  | inl heq => exact heq ▸ h
  | inr hstep =>
      obtain ⟨_, ⟨_, rfl⟩, hrest⟩ := hstep
      exact hnext q hrest

/-! ## Complete reads -/

/-- A byte of a read is the byte of the file it came from. -/
theorem File.fread_getD {f : File} {len i : Nat} (hi : i < len)
    (hend : f.pos + i < f.content.length) (d : UInt8) :
    (f.fread len).getD i d = byteAt f.content (f.pos + i) := by
  have hlen : i < (f.fread len).length := by
    rw [File.fread_length]
    omega
  rw [List.getD_eq_getElem _ _ hlen, byteAt, List.getD_eq_getElem _ _ hend]
  simp [File.fread]

theorem Buf.fill_fread {f : File} {len : Nat} {buf : Buf} {i : Fin 128}
    (hi : i.val < len) (hend : f.pos + i.val < f.content.length) :
    buf.fill (f.fread len) i = byteAt f.content (f.pos + i.val) :=
  File.fread_getD hi hend _

/-- A complete header is the one in the file. -/
theorem Cursor.header_of_fits {c : Cursor}
    (h : c.f.pos + 8 ≤ c.f.content.length) :
    c.header.tag = tagAt c.f.content c.f.pos ∧
      c.header.size = signed32 (sizeAt c.f.content c.f.pos) := by
  have hbyte : ∀ i : Fin 128, i.val < 8 →
      c.header i = byteAt c.f.content (c.f.pos + i.val) :=
    fun i hi => Buf.fill_fread hi (by omega)
  simp only [Buf.tag, Buf.size, get32bit, tagAt, sizeAt]
  rw [hbyte 0 (by decide), hbyte 1 (by decide), hbyte 2 (by decide),
    hbyte 3 (by decide), hbyte 4 (by decide), hbyte 5 (by decide),
    hbyte 6 (by decide), hbyte 7 (by decide)]
  exact ⟨rfl, rfl⟩

theorem Cursor.body_of_fits {c : Cursor}
    (h : c.f.pos + 8 ≤ c.f.content.length) :
    c.body = { c.f with pos := c.f.pos + 8 } := by
  simp [Cursor.body, File.afterRead, File.fread_length_of_le h]

/-- Past a header that fits, seeking by its size is moving to the next
chunk. -/
theorem Cursor.seek_of_fits {c : Cursor}
    (h : HeaderFits c.f.content c.f.pos) :
    c.body.fseekCur c.header.size =
      { c.f with pos := nextChunk c.f.content c.f.pos } := by
  rw [body_of_fits h.1, (header_of_fits h.1).2, signed32_of_lt h.2]
  simp only [File.fseekCur, File.seekTo, nextChunk]
  rw [if_pos (by omega)]
  congr 1

theorem Cursor.skip_of_fits {c : Cursor}
    (h : HeaderFits c.f.content c.f.pos) :
    c.skip.f = { c.f with pos := nextChunk c.f.content c.f.pos } :=
  seek_of_fits h

theorem Cursor.enterFmt_of_fits {c : Cursor}
    (h : HeaderFits c.f.content c.f.pos) (hlong : c.f.pos + 8 < 2147483648) :
    c.enterFmt.f = { c.f with pos := nextChunk c.f.content c.f.pos } := by
  have hpos : c.body.pos < 2147483648 := by
    rw [body_of_fits h.1]
    exact hlong
  simp only [Cursor.enterFmt, if_pos hpos]
  exact seek_of_fits h

/-! ## The loop on a clean stretch -/

/-- What the two chunks at `p` and `q` make of the `WAVE_FILE`. -/
def decoded (wfile : WaveFile) (b : List UInt8) (p q : Nat) : WaveFile :=
  { wfile with
    wavData := (b.drop (q + 8)).take (sizeAt b q)
    wavLen := sizeAt b q
    sampleRate := get32bit (byteAt b (p + 8 + 4)) (byteAt b (p + 8 + 5))
      (byteAt b (p + 8 + 6)) (byteAt b (p + 8 + 7))
    channels := get16bit (byteAt b (p + 8 + 2)) (byteAt b (p + 8 + 3))
    bits := get16bit (byteAt b (p + 8 + 14)) (byteAt b (p + 8 + 15)) }

/-- What the call returns when it takes the chunks at `p` and `q`.  A size
from `2 ^ 31` on is a negative `wav_len`. -/
def takenAt (malloc : Nat → Bool) (wfile : WaveFile) (b : List UInt8)
    (p q : Nat) : Bool × WaveFile :=
  if malloc (sizeAt b q) ∧ nextChunk b q ≤ b.length then
    (true, { decoded wfile b p q with wavLen := signed32 (sizeAt b q) })
  else (false, wfile)

/-- What the call returns when it takes the chunks at `p` and `q` and the size
of the second is not negative. -/
def outcomeAt (malloc : Nat → Bool) (wfile : WaveFile) (b : List UInt8)
    (p q : Nat) : Bool × WaveFile :=
  if malloc (sizeAt b q) ∧ nextChunk b q ≤ b.length then
    (true, decoded wfile b p q)
  else (false, wfile)

theorem takenAt_of_small {b : List UInt8} {q : Nat}
    (h : sizeAt b q < 2147483648) (malloc : Nat → Bool) (wfile : WaveFile)
    (p : Nat) : takenAt malloc wfile b p q = outcomeAt malloc wfile b p q := by
  rw [takenAt, signed32_of_lt h]
  rfl

/-- The loop stands on a clean stretch of `b`, wanting what `st` wants. -/
structure OnTrack (b : List UInt8) (st : ParseState) (w : Parse) : Prop where
  content : w.f.content = b
  state : w.state = st
  clean : CleanUpTo b st.wants w.f.pos

/-- The `fmt ` fields of the loop are those of the chunk at `p`. -/
structure HoldsFmt (b : List UInt8) (p : Nat) (w : Parse) : Prop where
  sampleRate : w.sampleRate =
    get32bit (byteAt b (p + 8 + 4)) (byteAt b (p + 8 + 5))
      (byteAt b (p + 8 + 6)) (byteAt b (p + 8 + 7))
  channels : w.channels =
    get16bit (byteAt b (p + 8 + 2)) (byteAt b (p + 8 + 3))
  bits : w.bits = get16bit (byteAt b (p + 8 + 14)) (byteAt b (p + 8 + 15))

theorem OnTrack.header_tag {b : List UInt8} {st : ParseState} {w : Parse}
    (h : OnTrack b st w) : w.cursor.header.tag = tagAt b w.f.pos := by
  have hfits : w.f.pos + 8 ≤ w.f.content.length := by
    rw [h.content]
    exact h.clean.complete
  have htag := (Cursor.header_of_fits (c := w.cursor) hfits).1
  rw [htag, ← h.content]
  rfl

/-- On track, an unwanted chunk is passed and nothing else changes. -/
theorem OnTrack.pass {b : List UInt8} {st : ParseState} {w : Parse}
    (malloc : Nat → Bool) (wfile : WaveFile) (h : OnTrack b st w)
    (ht : ¬ ChunkIs b st.wants w.f.pos) :
    ∃ w', chunkStep malloc wfile w = .again w' ∧ OnTrack b st w' ∧
      w'.f.pos = nextChunk b w.f.pos ∧
      ∀ p, HoldsFmt b p w → HoldsFmt b p w' := by
  have htag : w.cursor.header.tag ≠ w.state.wants := by
    rw [h.header_tag, h.state]
    exact ht
  have hskip : w.cursor.skip.f =
      { w.f with pos := nextChunk w.f.content w.f.pos } :=
    Cursor.skip_of_fits (c := w.cursor) (by
      show HeaderFits w.f.content w.f.pos
      rw [h.content]
      exact h.clean.fits ht)
  refine ⟨_, chunkStep_skip malloc wfile w htag, ⟨?_, h.state, ?_⟩, ?_,
    fun p hp => ⟨hp.sampleRate, hp.channels, hp.bits⟩⟩
  · simp only [Parse.skip, hskip, h.content]
  · simp only [Parse.skip, hskip, h.content]
    exact h.clean.next ht
  · simp only [Parse.skip, hskip, h.content]

/-- The part of `OnTrack.pass` a search needs. -/
theorem OnTrack.advance {b : List UInt8} {st : ParseState}
    (malloc : Nat → Bool) (wfile : WaveFile) (w : Parse) (h : OnTrack b st w)
    (ht : ¬ ChunkIs b st.wants w.f.pos) :
    ∃ w', chunkStep malloc wfile w = .again w' ∧ OnTrack b st w' ∧
      w'.f.pos = nextChunk b w.f.pos := by
  obtain ⟨w', hb, hw', hnext, -⟩ := h.pass malloc wfile ht
  exact ⟨w', hb, hw', hnext⟩

/-- At a `fmt ` chunk that fits, the loop takes its fields and goes on behind
it. -/
theorem OnTrack.fmt {b : List UInt8} {w : Parse}
    (malloc : Nat → Bool) (wfile : WaveFile) (h : OnTrack b .findFmt w)
    (ht : tagAt b w.f.pos = fmtTag) (hfits : HeaderFits b w.f.pos)
    (hfmt : FmtFits b w.f.pos)
    (hclean : CleanUpTo b dataTag (nextChunk b w.f.pos)) :
    ∃ w', chunkStep malloc wfile w = .again w' ∧ OnTrack b .findData w' ∧
      w'.f.pos = nextChunk b w.f.pos ∧ HoldsFmt b w.f.pos w' := by
  obtain ⟨hcontent, hstate, hahead⟩ := h
  obtain ⟨hsize, hinside, hlong⟩ := hfmt
  have htag : w.cursor.header.tag = fmtTag :=
    OnTrack.header_tag ⟨hcontent, hstate, hahead⟩ ▸ ht
  subst hcontent
  have hbody : w.cursor.body = { w.f with pos := w.f.pos + 8 } :=
    Cursor.body_of_fits (c := w.cursor) hfits.1
  have henter : w.cursor.enterFmt.f =
      { w.f with pos := nextChunk w.f.content w.f.pos } :=
    Cursor.enterFmt_of_fits (c := w.cursor) hfits hlong
  have hroom : w.f.pos + 8 + 16 ≤ w.f.content.length := by
    unfold nextChunk at hinside
    omega
  have hok : (freadData w.cursor.body 16).1 = true := by
    rw [freadData_ok_iff _ (by omega) (by omega), hbody]
    have h16 : sizeT 16 = 16 := by decide
    rw [h16]
    dsimp only
    omega
  have hbyte : ∀ i : Fin 128, i.val < 16 →
      w.cursor.enterFmt.left i = byteAt w.f.content (w.f.pos + 8 + i.val) := by
    intro i hi
    simp only [Cursor.enterFmt, hbody]
    exact Buf.fill_fread hi (by dsimp only; omega)
  have hnext := chunkStep_findFmt_fmt malloc wfile w hstate htag
  simp only [Parse.enterFmt, hok, if_true, henter] at hnext
  refine ⟨_, hnext, ⟨rfl, rfl, hclean⟩, rfl, ⟨?_, ?_, ?_⟩⟩
  · simp only [Buf.sampleRate, hbyte 4 (by decide), hbyte 5 (by decide),
      hbyte 6 (by decide), hbyte 7 (by decide)]
    rfl
  · simp only [Buf.channels, hbyte 2 (by decide), hbyte 3 (by decide)]
    rfl
  · simp only [Buf.bits, hbyte 14 (by decide), hbyte 15 (by decide)]
    rfl

/-- At the `data` chunk the loop leaves with the contents of the two chunks,
or with the `WAVE_FILE` untouched. -/
theorem OnTrack.data {b : List UInt8} {w : Parse} {p : Nat}
    (malloc : Nat → Bool) (wfile : WaveFile) (h : OnTrack b .findData w)
    (ht : tagAt b w.f.pos = dataTag) (hp : HoldsFmt b p w) :
    chunkStep malloc wfile w =
      .leave (takenAt malloc wfile b p w.f.pos) := by
  have htag : w.cursor.header.tag = dataTag := h.header_tag ▸ ht
  rw [chunkStep_findData_data malloc wfile w h.state htag]
  obtain ⟨hcontent, hstate, hahead⟩ := h
  subst hcontent
  have hhead := hahead.complete
  have hword := sizeAt_lt w.f.content w.f.pos
  have hbody : w.cursor.body = { w.f with pos := w.f.pos + 8 } :=
    Cursor.body_of_fits (c := w.cursor) hhead
  have hsize : w.cursor.header.size =
      signed32 (sizeAt w.f.content w.f.pos) :=
    (Cursor.header_of_fits (c := w.cursor) hhead).2
  have hsizeT := sizeT_signed32 hword
  have hbounds := signed32_bounds hword
  have hread : (freadData { w.f with pos := w.f.pos + 8 }
      (signed32 (sizeAt w.f.content w.f.pos))).1 = true ↔
      nextChunk w.f.content w.f.pos ≤ w.f.content.length := by
    rw [freadData_ok_iff _ hbounds.1 hbounds.2, hsizeT, nextChunk]
    dsimp only
    omega
  simp only [Parse.finish, takenAt, hsize, hbody, hsizeT, hread, decoded,
    hp.sampleRate, hp.channels, hp.bits]
  rfl

/-! ## The call on a clean walk -/

theorem headerBuf_apply {b : List UInt8} (h : 12 ≤ b.length) (buf : Buf)
    {i : Fin 128} (hi : i.val < 12) : headerBuf b buf i = byteAt b i.val := by
  have hread : headerBuf b buf = buf.fill ((⟨b, 0⟩ : File).fread 12) := rfl
  rw [hread, Buf.fill_fread hi (by dsimp only; omega), Nat.zero_add]

/-- With twelve bytes in the file the header test is about the file alone. -/
theorem riffHeader_iff {b : List UInt8} (h : 12 ≤ b.length) (buf : Buf) :
    RiffHeader (headerBuf b buf) ↔
      tagAt b 0 = riffTag ∧ tagAt b 8 = waveTag := by
  have hb : ∀ i : Fin 128, i.val < 12 → headerBuf b buf i = byteAt b i.val :=
    fun i hi => headerBuf_apply h buf hi
  simp only [RiffHeader, Buf.tag, tagAt]
  rw [hb 0 (by decide), hb 1 (by decide), hb 2 (by decide), hb 3 (by decide),
    hb 8 (by decide), hb 9 (by decide), hb 10 (by decide), hb 11 (by decide)]
  rfl

/-- Behind a complete header the loop starts on track at offset 12. -/
theorem start_onTrack {b : List UInt8} (h : 12 ≤ b.length)
    (hclean : CleanAhead b fmtTag 12) (buf : Buf) :
    (Parse.start b buf).f.pos = 12 ∧
      OnTrack b .findFmt (Parse.start b buf) := by
  have hlen : ((⟨b, 0⟩ : File).fread 12).length = 12 :=
    File.fread_length_of_le (by simpa using h)
  have hpos : (Parse.start b buf).f.pos = 12 := by
    show 0 + ((⟨b, 0⟩ : File).fread 12).length = 12
    omega
  exact ⟨hpos, ⟨rfl, rfl, by rw [hpos]; exact hclean.upTo⟩⟩

variable (malloc : Nat → Bool) (wfile : WaveFile)

/-- The loop takes the first `fmt ` chunk and the first `data` chunk behind
it. -/
theorem returns_of_firstChunks {b : List UInt8} (buf : Buf) {p q : Nat}
    (h : 12 ≤ b.length) (hclean : CleanToData b)
    (hp : FirstChunk b fmtTag 12 p)
    (hq : FirstChunk b dataTag (nextChunk b p) q) :
    Returns (chunkStep malloc wfile) (Parse.start b buf)
      (takenAt malloc wfile b p q) := by
  obtain ⟨hpos, htrack⟩ := start_onTrack h hclean.1 buf
  obtain ⟨hfmt, hahead⟩ := hclean.2 p hp
  -- the search for the `fmt ` chunk
  obtain ⟨s, hreach, hs, hsp⟩ := search_reaches (fun w : Parse => w.f.pos)
    (OnTrack b .findFmt) (OnTrack.advance malloc wfile) htrack (hpos ▸ hp)
  subst hsp
  obtain ⟨t, hb, ht, htp, hfields⟩ :=
    hs.fmt malloc wfile hp.2 (hclean.1 _ hp.1) hfmt hahead
  -- the search for the `data` chunk, with the fields in hand
  obtain ⟨u, hreach', ⟨hu, hufields⟩, huq⟩ :=
    search_reaches (fun w : Parse => w.f.pos)
      (fun w => OnTrack b .findData w ∧ HoldsFmt b s.f.pos w)
      (fun w hw hoff => by
        obtain ⟨w', hb', hw', hnext, hkeep⟩ := hw.1.pass malloc wfile hoff
        exact ⟨w', hb', ⟨hw', hkeep _ hw.2⟩, hnext⟩)
      ⟨ht, hfields⟩ (htp ▸ hq)
  subst huq
  have hexit := hu.data malloc wfile hq.2 hufields
  exact (returns_reaches_iff ((hreach.tail hb).trans hreach') _).2
    ((returns_leave_iff hexit _).2 rfl)

/-- A loop that terminates on a clean walk has found the two chunks. -/
theorem firstChunks_of_terminates {b : List UInt8} {buf : Buf}
    (h : 12 ≤ b.length) (hclean : CleanToData b)
    (hterm : Terminates (chunkStep malloc wfile) (Parse.start b buf)) :
    ∃ p q, FirstChunk b fmtTag 12 p ∧
      FirstChunk b dataTag (nextChunk b p) q := by
  obtain ⟨hpos, htrack⟩ := start_onTrack h hclean.1 buf
  obtain ⟨s, hreach, hs, hp⟩ := terminates_hits (fun w : Parse => w.f.pos)
    (OnTrack b .findFmt) (OnTrack.advance malloc wfile) htrack hterm
  rw [hpos] at hp
  obtain ⟨hfmt, hahead⟩ := hclean.2 _ hp
  obtain ⟨t, hb, ht, htp, _⟩ :=
    hs.fmt malloc wfile hp.2 (hclean.1 _ hp.1) hfmt hahead
  obtain ⟨u, _, _, hq⟩ := terminates_hits (fun w : Parse => w.f.pos)
    (OnTrack b .findData) (OnTrack.advance malloc wfile) ht
    ((terminates_reaches_iff (hreach.tail hb)).1 hterm)
  rw [htp] at hq
  exact ⟨s.f.pos, u.f.pos, hp, hq⟩

/-- **The call on a walk that is clean up to its `data` header.**  It returns
exactly what the first `fmt ` chunk and the first `data` chunk behind it
contain. -/
theorem reads_iff_of_cleanToData {b : List UInt8} {buf : Buf}
    (h : 12 ≤ b.length) (hriff : RiffHeader (headerBuf b buf))
    (hclean : CleanToData b) (ok : Bool) (r : WaveFile) :
    Reads (some b) buf malloc wfile ok r ↔
      ∃ p q, FirstChunk b fmtTag 12 p ∧
        FirstChunk b dataTag (nextChunk b p) q ∧
        (ok, r) = takenAt malloc wfile b p q := by
  rw [reads_iff_returns hriff]
  constructor
  · intro hr
    obtain ⟨p, q, hp, hq⟩ :=
      firstChunks_of_terminates malloc wfile h hclean ⟨_, hr⟩
    have hr' := returns_of_firstChunks malloc wfile buf h hclean hp hq
    exact ⟨p, q, hp, hq, returns_unique hr hr'⟩
  · rintro ⟨p, q, hp, hq, heq⟩
    rw [heq]
    exact returns_of_firstChunks malloc wfile buf h hclean hp hq

/-- **The call on a clean walk.**  It returns exactly what the first `fmt `
chunk and the first `data` chunk behind it contain, the size included. -/
theorem reads_iff_of_cleanWalk {b : List UInt8} {buf : Buf}
    (h : 12 ≤ b.length) (hriff : RiffHeader (headerBuf b buf))
    (hclean : CleanWalk b) (ok : Bool) (r : WaveFile) :
    Reads (some b) buf malloc wfile ok r ↔
      ∃ p q, FirstChunk b fmtTag 12 p ∧
        FirstChunk b dataTag (nextChunk b p) q ∧
        (ok, r) = outcomeAt malloc wfile b p q := by
  rw [reads_iff_of_cleanToData malloc wfile h hriff hclean.toData]
  refine exists₂_congr fun p q => and_congr_right fun hp =>
    and_congr_right fun hq => ?_
  have hsmall : sizeAt b q < 2147483648 := ((hclean.2 p hp).2 q hq.1).2
  rw [takenAt_of_small hsmall]

end Bucktoot.Ports.ReadWave
