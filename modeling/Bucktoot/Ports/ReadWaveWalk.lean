import Bucktoot.Ports.ReadWave

/-!
# Which files `read_wave_file` comes back from

The loop has no measure, so its termination is a property of the file.  A
`Cursor` is what the walk depends on: the stream and the bytes left in the
header buffer, which matter when a header is cut off by the end of the file.
`readEnds_iff` says that the call returns exactly when the walk over the
cursors comes to a `fmt ` header and, from there, to a `data` header.

`headerOnly` is a file on which it does not: twelve bytes of header and
nothing else.  The failed header read leaves `RIFF` in the buffer, which is
taken for a chunk of length zero for ever.
-/

namespace Bucktoot.Ports.ReadWave

open Bucktoot.Verified.LittleEndian
open Bucktoot.Verified.WhileLoop

/-! ## Cursors -/

/-- Where the walk stands: the stream, at the offset of the next header, and
what the header buffer still holds. -/
structure Cursor where
  f : File
  left : Buf

/-- The header as the walk sees it: the bytes that are there, and behind them
whatever the buffer held. -/
def Cursor.header (c : Cursor) : Buf := c.left.fill (c.f.fread 8)

/-- The stream behind the header. -/
def Cursor.body (c : Cursor) : File := c.f.afterRead 8

/-- The walk goes past a chunk it is not looking for. -/
def Cursor.skip (c : Cursor) : Cursor :=
  ⟨c.body.fseekCur c.header.size, c.header⟩

/-- The walk goes past the `fmt ` chunk, whose first sixteen bytes are read
into the header buffer.  Where `ftell` cannot report the offset, the stream is
not moved back in front of the body. -/
def Cursor.enterFmt (c : Cursor) : Cursor :=
  ⟨(if c.body.pos < 2147483648 then c.body
      else c.body.afterRead 16).fseekCur c.header.size,
    c.header.fill (c.body.fread 16)⟩

/-- Where the walk over the file `b` starts. -/
def Cursor.start (b : List UInt8) (buf : Buf) : Cursor :=
  ⟨(⟨b, 0⟩ : File).afterRead 12, headerBuf b buf⟩

/-- The walk stands at a header with the given id. -/
def Cursor.At (tag : Tag) (c : Cursor) : Prop := c.header.tag = tag

/-- The first header with the given id that the walk comes to. -/
def Comes (tag : Tag) : Cursor → Cursor → Prop :=
  FirstHit (Cursor.At tag) Cursor.skip

/-- The walk over the file comes to a `fmt ` header and, from behind that
chunk, to a `data` header. -/
def ReachesData (b : List UInt8) (buf : Buf) : Prop :=
  ∃ p q, Comes fmtTag (Cursor.start b buf) p ∧ Comes dataTag p.enterFmt q

/-! ## One pass of the loop, case by case -/

/-- The id a parser state is looking for. -/
def ParseState.wants : ParseState → Tag
  | .findFmt => fmtTag
  | .findData => dataTag

/-- The cursor of a loop state. -/
def Parse.cursor (w : Parse) : Cursor := ⟨w.f, w.buf⟩

/-- Going back to the offset `ftell` reported is going nowhere, also where it
reported failure. -/
@[simp] theorem File.fseekSet_ftell (f : File) : f.fseekSet f.ftell = f := by
  unfold File.fseekSet File.seekTo File.ftell
  split
  · rw [if_pos (by omega)]
    simp
  · rw [if_neg (by omega)]

theorem File.fseekSet_ftell_afterRead (f : File) (len : Nat) :
    (f.afterRead len).fseekSet f.ftell =
      if f.pos < 2147483648 then f else f.afterRead len := by
  unfold File.fseekSet File.seekTo File.ftell
  split
  · rw [if_pos (by omega)]
    simp [File.afterRead]
  · rw [if_neg (by omega)]

variable (malloc : Nat → Bool) (wfile : WaveFile) (w : Parse)

/-- The loop state behind a chunk that was skipped. -/
def Parse.skip (w : Parse) : Parse :=
  { w with f := w.cursor.skip.f, buf := w.cursor.skip.left }

/-- A pass over a chunk that is not wanted skips it, in either state. -/
theorem chunkStep_skip (ht : w.cursor.header.tag ≠ w.state.wants) :
    chunkStep malloc wfile w = .again w.skip := by
  cases hs : w.state with
  | findFmt =>
      have ht' : (w.buf.fill (freadData w.f 8).2.1).tag ≠ fmtTag := by
        rw [hs] at ht
        exact ht
      simp only [chunkStep, Parse.skip, hs, if_neg ht', File.fseekSet_ftell]
      rfl
  | findData =>
      have ht' : (w.buf.fill (freadData w.f 8).2.1).tag ≠ dataTag := by
        rw [hs] at ht
        exact ht
      simp only [chunkStep, Parse.skip, hs, if_neg ht']
      rfl

/-- The loop state behind the `fmt ` chunk. -/
def Parse.enterFmt (w : Parse) : Parse :=
  let c := w.cursor.enterFmt
  if (freadData w.cursor.body 16).1 then
    { f := c.f
      buf := c.left
      state := .findData
      sampleRate := c.left.sampleRate
      channels := c.left.channels
      bits := c.left.bits }
  else { w with f := c.f, buf := c.left, state := .findData }

theorem chunkStep_findFmt_fmt (hs : w.state = .findFmt)
    (ht : w.cursor.header.tag = fmtTag) :
    chunkStep malloc wfile w = .again w.enterFmt := by
  have ht' : (w.buf.fill (freadData w.f 8).2.1).tag = fmtTag := ht
  have hseek := File.fseekSet_ftell_afterRead w.cursor.body 16
  simp only [chunkStep, hs, if_pos ht', Parse.enterFmt, Cursor.enterFmt,
    ← hseek]
  have hok : (freadData (freadData w.f 8).2.2 16).1 =
      (freadData w.cursor.body 16).1 := rfl
  rw [hok]
  split <;> rfl

/-- What the `data` chunk makes of the `WAVE_FILE`. -/
def Parse.finish (malloc : Nat → Bool) (wfile : WaveFile) (w : Parse) :
    Bool × WaveFile :=
  let val := w.cursor.header.size
  if malloc (sizeT val) ∧ (freadData w.cursor.body val).1 then
    (true,
      { wfile with
        wavData := w.cursor.body.fread (sizeT val)
        wavLen := val
        sampleRate := w.sampleRate
        channels := w.channels
        bits := w.bits })
  else (false, wfile)

/-- A `data` header ends the loop, whatever the allocation and the read do. -/
theorem chunkStep_findData_data (hs : w.state = .findData)
    (ht : w.cursor.header.tag = dataTag) :
    chunkStep malloc wfile w = .leave (w.finish malloc wfile) := by
  have ht' : (w.buf.fill (freadData w.f 8).2.1).tag = dataTag := ht
  have hsize : (w.buf.fill (freadData w.f 8).2.1).size =
      w.cursor.header.size := rfl
  have hok : (freadData (freadData w.f 8).2.2 w.cursor.header.size).1 =
      (freadData w.cursor.body w.cursor.header.size).1 := rfl
  simp only [chunkStep, hs, if_pos ht', Parse.finish, hsize, hok]
  split
  · rename_i hm
    by_cases hr : (freadData w.cursor.body w.cursor.header.size).1 = true
    · rw [if_pos hr, if_pos ⟨hm, hr⟩]
      rfl
    · rw [if_neg hr, if_neg (fun h => hr h.2)]
  · rename_i hm
    rw [if_neg (fun h => hm h.1)]

/-- **What a pass can do**: skip an unwanted chunk, go behind the `fmt ` chunk,
or leave at the `data` chunk. -/
theorem chunkStep_cases :
    (w.cursor.header.tag ≠ w.state.wants ∧
      chunkStep malloc wfile w = .again w.skip) ∨
    (w.state = .findFmt ∧ w.cursor.header.tag = fmtTag ∧
      chunkStep malloc wfile w = .again w.enterFmt) ∨
    (w.state = .findData ∧ w.cursor.header.tag = dataTag ∧
      chunkStep malloc wfile w = .leave (w.finish malloc wfile)) := by
  by_cases ht : w.cursor.header.tag = w.state.wants
  · right
    cases hs : w.state with
    | findFmt =>
        rw [hs] at ht
        exact .inl ⟨rfl, ht, chunkStep_findFmt_fmt malloc wfile w hs ht⟩
    | findData =>
        rw [hs] at ht
        exact .inr ⟨rfl, ht, chunkStep_findData_data malloc wfile w hs ht⟩
  · exact .inl ⟨ht, chunkStep_skip malloc wfile w ht⟩

variable {malloc wfile w}

/-- Where a pass that goes on leaves the loop. -/
theorem chunkStep_again {w' : Parse}
    (h : chunkStep malloc wfile w = .again w') :
    w' = w.skip ∨ w' = w.enterFmt := by
  rcases chunkStep_cases malloc wfile w with
    ⟨-, hstep⟩ | ⟨-, -, hstep⟩ | ⟨-, -, hstep⟩
  · rw [hstep] at h
    exact .inl (Outcome.again.inj h).symm
  · rw [hstep] at h
    exact .inr (Outcome.again.inj h).symm
  · rw [hstep] at h
    cases h

/-- What a pass that leaves the loop returns. -/
theorem chunkStep_leave {out : Bool × WaveFile}
    (h : chunkStep malloc wfile w = .leave out) :
    out = w.finish malloc wfile := by
  rcases chunkStep_cases malloc wfile w with
    ⟨-, hstep⟩ | ⟨-, -, hstep⟩ | ⟨-, -, hstep⟩
  · rw [hstep] at h
    cases h
  · rw [hstep] at h
    cases h
  · rw [hstep] at h
    exact (Outcome.leave.inj h).symm

variable (malloc wfile w)

theorem Parse.enterFmt_state : w.enterFmt.state = .findData := by
  unfold Parse.enterFmt
  dsimp only
  split <;> rfl

theorem Parse.enterFmt_cursor : w.enterFmt.cursor = w.cursor.enterFmt := by
  unfold Parse.enterFmt
  dsimp only
  split <;> rfl

/-! ## The loop is a search for `fmt ` and then for `data` -/

/-- In a fixed parser state the loop searches for the id the state wants. -/
theorem chunkStep_searches (st : ParseState) :
    ∀ s : Parse, s.state = st → ¬ Cursor.At st.wants s.cursor →
      ∃ s', chunkStep malloc wfile s = .again s' ∧ s'.state = st ∧
        s'.cursor = s.cursor.skip := by
  rintro s rfl ht
  exact ⟨_, chunkStep_skip malloc wfile s ht, rfl, rfl⟩

/-- **When the loop ends.**  From its start the loop terminates exactly when
the walk comes to a `fmt ` header and then to a `data` header. -/
theorem terminates_start_iff (b : List UInt8) (buf : Buf) :
    Terminates (chunkStep malloc wfile) (Parse.start b buf) ↔
      ReachesData b buf := by
  have hfmt := chunkStep_searches malloc wfile .findFmt
  have hdata := chunkStep_searches malloc wfile .findData
  constructor
  · intro hterm
    obtain ⟨s, hreach, hs, hhit⟩ :=
      terminates_hits Parse.cursor (fun s => s.state = .findFmt) hfmt rfl hterm
    have hpass := chunkStep_findFmt_fmt malloc wfile s hs hhit.2
    have hterm' := (terminates_reaches_iff (hreach.tail hpass)).1 hterm
    obtain ⟨t, _, _, hhit'⟩ :=
      terminates_hits Parse.cursor (fun s => s.state = .findData) hdata
        s.enterFmt_state hterm'
    rw [s.enterFmt_cursor] at hhit'
    exact ⟨s.cursor, t.cursor, hhit, hhit'⟩
  · rintro ⟨p, q, hp, hq⟩
    obtain ⟨s, hreach, hs, rfl⟩ :=
      search_reaches Parse.cursor (fun s => s.state = .findFmt) hfmt
        (show (Parse.start b buf).state = .findFmt from rfl) hp
    rw [← s.enterFmt_cursor] at hq
    obtain ⟨t, hreach', ht, rfl⟩ :=
      search_reaches Parse.cursor (fun s => s.state = .findData) hdata
        s.enterFmt_state hq
    have hpass := chunkStep_findFmt_fmt malloc wfile s hs hp.2
    have hexit := chunkStep_findData_data malloc wfile t ht hq.2
    exact (terminates_reaches_iff ((hreach.tail hpass).trans hreach')).2
      ⟨_, (returns_leave_iff hexit _).2 rfl⟩

/-- **When the call returns.**  `read_wave_file` returns on a file exactly
when the header test fails or the walk comes to a `fmt ` header and, from
behind that chunk, to a `data` header. -/
theorem readEnds_iff (b : List UInt8) (buf : Buf) :
    ReadEnds (some b) buf malloc wfile ↔
      (RiffHeader (headerBuf b buf) → ReachesData b buf) := by
  by_cases h : RiffHeader (headerBuf b buf)
  · rw [readEnds_iff_terminates h, terminates_start_iff]
    exact ⟨fun hr _ => hr, fun hr => hr h⟩
  · refine ⟨fun _ hh => absurd hh h, fun _ => ⟨false, wfile, ?_⟩⟩
    exact (reads_of_not_riffHeader h malloc wfile false wfile).2 ⟨rfl, rfl⟩

/-! ## Running off the end -/

/-- At or behind the end of the file the header read delivers nothing, so the
buffer is taken for a header again. -/
theorem Cursor.header_of_end {c : Cursor} (h : c.f.content.length ≤ c.f.pos) :
    c.header = c.left := by
  simp [Cursor.header, File.fread_of_end h]

theorem Cursor.skip_of_end {c : Cursor} (h : c.f.content.length ≤ c.f.pos)
    (hsize : 0 ≤ c.left.size) :
    c.skip.left = c.left ∧ c.skip.f.content = c.f.content ∧
      c.f.pos ≤ c.skip.f.pos := by
  have hbody : c.body = c.f := by
    simp [Cursor.body, File.afterRead, File.fread_of_end h]
  refine ⟨header_of_end h, by simp [Cursor.skip, hbody], ?_⟩
  simp only [Cursor.skip, hbody, header_of_end h, File.fseekCur,
    File.seekTo_pos]
  split <;> omega

/-- **The loop runs off the end.**  Once the offset has passed the end of the
file, a header in the buffer that is not wanted and does not seek backwards
keeps the loop going for ever. -/
theorem not_terminates_of_end (hend : w.f.content.length ≤ w.f.pos)
    (htag : w.buf.tag ≠ w.state.wants) (hsize : 0 ≤ w.buf.size) :
    ¬ Terminates (chunkStep malloc wfile) w := by
  refine not_terminates_of_trap
    (fun s => s.f.content.length ≤ s.f.pos ∧ s.buf.tag ≠ s.state.wants ∧
      0 ≤ s.buf.size) ?_ ⟨hend, htag, hsize⟩
  rintro s ⟨hs, ht, hz⟩
  have hheader : s.cursor.header = s.buf := Cursor.header_of_end hs
  obtain ⟨hleft, hcontent, hpos⟩ := Cursor.skip_of_end (c := s.cursor) hs hz
  refine ⟨_, chunkStep_skip malloc wfile s (by rw [hheader]; exact ht), ?_⟩
  refine ⟨?_, ?_, ?_⟩
  · simp only [Parse.skip, hcontent]
    exact Nat.le_trans hs hpos
  · simp only [Parse.skip, hleft]
    exact ht
  · simp only [Parse.skip, hleft]
    exact hz

/-- A `WAVE_FILE` with nothing in it but a name. -/
def freshWave : WaveFile := ⟨some "a.wav", [], 0, 0, 0, 0⟩

/-- A file that ends after its twelve-byte header. -/
def headerOnly : List UInt8 :=
  [0x52, 0x49, 0x46, 0x46, 0, 0, 0, 0, 0x57, 0x41, 0x56, 0x45]

/-- On a file that ends after its header the call never returns. -/
theorem headerOnly_never_ends :
    ¬ ReadEnds (some headerOnly) (fun _ => 0) (fun _ => true) freshWave := by
  rw [readEnds_iff_terminates (by decide)]
  exact not_terminates_of_end _ _ _ (by decide) (by decide) (by decide)

end Bucktoot.Ports.ReadWave
