import Mathlib.Data.List.Infix
import Mathlib.Logic.Function.Basic
import Bucktoot.Ports.ReadWaveWalk
import Bucktoot.Ports.VoicePool

/-!
# Loading the table of files

`load_wavs` goes through the files of a directory and reads each of them into
the next element of `mywavs`, which it moves on from only if the file could be
read.  Nothing looks at the number of elements: when all of them are full, the
next attempt writes behind the table.

* `readInto`, `exists_outcome` — what a call of `read_wave_file` does to the
  `WAVE_FILE` it is given does not depend on what that holds;
* `loadWavs_loadedTo` — the table after any part of the listing;
* `loadsInOrder_iff` — when the table is filled and nothing else is written;
* `reads_of_fileAt` — every file that `play_index` finds has been returned by
  `read_wave_file`.
-/

namespace Bucktoot.Ports.LoadWavs

open Bucktoot.Verified.WhileLoop
open Bucktoot.Ports.Mixer
open Bucktoot.Ports.ReadWave
open Bucktoot.Ports.VoicePool

/-! ## One file -/

/-- What a successful `read_wave_file` stores. -/
structure Loaded where
  wavData : List UInt8
  wavLen : Int
  sampleRate : Int
  channels : Int
  bits : Int
  deriving DecidableEq

/-- A `WAVE_FILE` with these fields in it. -/
def Loaded.into (c : Loaded) (wfile : WaveFile) : WaveFile :=
  { wfile with
    wavData := c.wavData
    wavLen := c.wavLen
    sampleRate := c.sampleRate
    channels := c.channels
    bits := c.bits }

/-- A call of `read_wave_file` with this outcome. -/
def readInto (outcome : Option Loaded) (wfile : WaveFile) : Bool × WaveFile :=
  match outcome with
  | some c => (true, c.into wfile)
  | none => (false, wfile)

/-- The outcome of the parser when it is at the `data` chunk. -/
def outcomeAt (malloc : Nat → Bool) (w : Parse) : Option Loaded :=
  let val := w.cursor.header.size
  if malloc (sizeT val) ∧ (freadData w.cursor.body val).1 then
    some
      { wavData := w.cursor.body.fread (sizeT val)
        wavLen := val
        sampleRate := w.sampleRate
        channels := w.channels
        bits := w.bits }
  else none

theorem finish_eq (malloc : Nat → Bool) (wfile : WaveFile) (w : Parse) :
    w.finish malloc wfile = readInto (outcomeAt malloc w) wfile := by
  rw [Parse.finish, outcomeAt]
  split <;> rfl

/-- Passes that go on do not look at the `WAVE_FILE`. -/
theorem chunkStep_again_congr {malloc : Nat → Bool} {wfile : WaveFile}
    {w w' : Parse} (wfile' : WaveFile)
    (h : chunkStep malloc wfile w = .again w') :
    chunkStep malloc wfile' w = .again w' := by
  rcases chunkStep_cases malloc wfile w with
    ⟨htag, hstep⟩ | ⟨hstate, htag, hstep⟩ | ⟨-, -, hstep⟩
  · rw [chunkStep_skip malloc wfile' w htag, ← hstep, h]
  · rw [chunkStep_findFmt_fmt malloc wfile' w hstate htag, ← hstep, h]
  · rw [hstep] at h
    cases h

/-- If `read_wave_file` returns at all, it has an outcome, the same one
whatever is in the `WAVE_FILE` it is called with. -/
theorem exists_outcome {fopen : Option (List UInt8)} {buf : Buf}
    {malloc : Nat → Bool} {wfile : WaveFile}
    (h : ReadEnds fopen buf malloc wfile) :
    ∃ outcome : Option Loaded, ∀ wfile', Reads fopen buf malloc wfile'
      (readInto outcome wfile').1 (readInto outcome wfile').2 := by
  obtain ⟨ok, r, h⟩ := h
  cases fopen with
  | none => exact ⟨none, fun wfile' => ⟨0, rfl⟩⟩
  | some b =>
      by_cases hriff : RiffHeader (headerBuf b buf)
      · rw [reads_iff_returns hriff, returns_iff_reaches] at h
        obtain ⟨w, hreach, hleave⟩ := h
        refine ⟨outcomeAt malloc w, fun wfile' => ?_⟩
        rw [reads_iff_returns hriff, returns_iff_reaches]
        refine ⟨w, Relation.ReflTransGen.mono
          (fun _ _ => chunkStep_again_congr wfile') _ _ hreach, ?_⟩
        rcases chunkStep_cases malloc wfile w with
          ⟨-, hstep⟩ | ⟨-, -, hstep⟩ | ⟨hstate, htag, -⟩
        · rw [hstep] at hleave
          cases hleave
        · rw [hstep] at hleave
          cases hleave
        · rw [chunkStep_findData_data malloc wfile' w hstate htag, finish_eq]
      · exact ⟨none, fun wfile' =>
          (reads_of_not_riffHeader hriff _ _ _ _).2 ⟨rfl, rfl⟩⟩

/-! ## The listing -/

/-- A zeroed element of `mywavs`. -/
def zeroWave : WaveFile :=
  { fname := none, wavData := [], wavLen := 0, sampleRate := 0, channels := 0
    bits := 0 }

/-- `strstr` does not find "example" in the name. -/
def Wanted (name : String) : Prop := ¬ "example".toList <:+: name.toList

instance (name : String) : Decidable (Wanted name) :=
  inferInstanceAs (Decidable (¬ "example".toList <:+: name.toList))

/-- `_snprintf` into the 255 bytes of `tmp`. -/
def tmpPath (name : String) : String :=
  String.ofList (("wavs\\" ++ name).toList.take 255)

/-- The memory from `mywavs` on, element by element, the element that comes
next, and the elements that have been written so far. -/
structure Table where
  mywavs : Nat → WaveFile
  index : Nat
  written : List Nat

def Table.init : Table :=
  { mywavs := fun _ => zeroWave, index := 0, written := [] }

/-- Write the element that comes next. -/
def Table.write (t : Table) (wf : WaveFile) : Table :=
  { t with
    mywavs := Function.update t.mywavs t.index wf
    written := t.written ++ [t.index] }

/-- The body of the loop, for a file with this name.  `read` is the outcome of
`read_wave_file` for a path. -/
def loadFile (read : String → Option Loaded) (t : Table) (name : String) :
    Table :=
  if Wanted name then
    let tmp := tmpPath name
    let wf := { t.mywavs t.index with fname := some tmp }
    let (ok, wf) := readInto (read tmp) wf
    if ok then
      { t.write { wf with fname := some name } with index := t.index + 1 }
    else t.write { wf with fname := none }
  else t

/-- The names the loop sees.  Without files `FindFirstFileA` does not return
zero, and the loop is entered with an empty name. -/
def found (names : List String) : List String :=
  if names = [] then [""] else names

/-- `load_wavs` on a directory with these files. -/
def loadWavs (read : String → Option Loaded) (names : List String) : Table :=
  (found names).foldl (loadFile read) .init

/-! ## What is to be loaded -/

/-- The element for a file, if it is wanted and can be read. -/
def wavFile (read : String → Option Loaded) (name : String) :
    Option WaveFile :=
  if Wanted name then
    (read ("wavs\\" ++ name)).map
      (fun c => c.into { zeroWave with fname := some name })
  else none

/-- The files that can be read, in the order of the listing. -/
def loadable (read : String → Option Loaded) (names : List String) :
    List WaveFile :=
  names.filterMap (wavFile read)

/-- The first hundred files are in the table in order, the rest of the table is
free, and nothing behind it was written. -/
structure LoadsInOrder (read : String → Option Loaded) (names : List String) :
    Prop where
  inside : ∀ i ∈ (loadWavs read names).written, i < 100
  filled : ∀ (i : Nat) (wf : WaveFile),
    ((loadable read names).take 100)[i]? = some wf →
    (loadWavs read names).mywavs i = wf
  rest : ∀ i < 100, (loadable read names).length ≤ i →
    ((loadWavs read names).mywavs i).fname = none

/-- Whenever a file is attempted, fewer than a hundred have been read. -/
def NeverFull (read : String → Option Loaded) (names : List String) : Prop :=
  ∀ (k : Nat) (name : String), names[k]? = some name → Wanted name →
    (loadable read (names.take k)).length < 100

/-- What holds after a part of the listing. -/
structure LoadedTo (read : String → Option Loaded) (names : List String)
    (t : Table) : Prop where
  index : t.index = (loadable read names).length
  filled : ∀ (i : Nat) (wf : WaveFile), (loadable read names)[i]? = some wf →
    t.mywavs i = wf
  rest : ∀ i, (loadable read names).length ≤ i → t.mywavs i = zeroWave
  written : ∀ i, i ∈ t.written ↔ ∃ (k : Nat) (name : String),
    names[k]? = some name ∧ Wanted name ∧
      i = (loadable read (names.take k)).length

section

variable {read : String → Option Loaded} {names : List String}

theorem tmpPath_eq {name : String} (h : name.length < 250) :
    tmpPath name = "wavs\\" ++ name := by
  have hlen : ("wavs\\" ++ name).toList.length ≤ 255 := by
    rw [String.length_toList, String.length_append]
    have : "wavs\\".length = 5 := rfl
    omega
  rw [tmpPath, List.take_of_length_le hlen, String.ofList_toList]

theorem loadable_concat (read : String → Option Loaded) (names : List String)
    (name : String) :
    loadable read (names ++ [name]) =
      loadable read names ++ (wavFile read name).toList := by
  rw [loadable, List.filterMap_append]
  cases h : wavFile read name with
  | none => rw [List.filterMap_cons_none h]; rfl
  | some wf => rw [List.filterMap_cons_some h]; rfl

theorem loadable_concat_of_none {name : String}
    (h : wavFile read name = none) :
    loadable read (names ++ [name]) = loadable read names := by
  rw [loadable_concat, h]
  exact List.append_nil _

theorem loadable_concat_of_some {name : String} {wf : WaveFile}
    (h : wavFile read name = some wf) :
    loadable read (names ++ [name]) = loadable read names ++ [wf] := by
  rw [loadable_concat, h]
  rfl

/-- The places of a listing with one more name. -/
theorem getElem?_concat_iff {α : Type*} {l : List α} {x y : α} {k : Nat} :
    (l ++ [x])[k]? = some y ↔ l[k]? = some y ∨ (k = l.length ∧ x = y) := by
  rcases Nat.lt_trichotomy k l.length with hlt | heq | hgt
  · rw [List.getElem?_append_left hlt]
    exact (or_iff_left (fun h => absurd h.1 hlt.ne)).symm
  · subst heq
    rw [List.getElem?_concat_length, List.getElem?_eq_none (Nat.le_refl _)]
    simp
  · rw [List.getElem?_eq_none (by simp; omega),
      List.getElem?_eq_none (by omega)]
    simp
    omega

/-! ## The loop -/

/-- What the body of the loop can do: skip a name, write the next element and
stay there, or write it and move on. -/
theorem loadFile_cases (read : String → Option Loaded) (t : Table)
    {name : String} (hname : name.length < 250) :
    (¬ Wanted name ∧ wavFile read name = none ∧ loadFile read t name = t) ∨
    (Wanted name ∧ wavFile read name = none ∧
      loadFile read t name =
        t.write { t.mywavs t.index with fname := none }) ∨
    (∃ c : Loaded, Wanted name ∧
      wavFile read name = some (c.into { zeroWave with fname := some name }) ∧
      loadFile read t name =
        { t.write (c.into { t.mywavs t.index with fname := some name }) with
          index := t.index + 1 }) := by
  rw [wavFile, loadFile, tmpPath_eq hname]
  by_cases hwanted : Wanted name
  · rw [if_pos hwanted, if_pos hwanted]
    dsimp only
    cases read ("wavs\\" ++ name) with
    | none => exact .inr (.inl ⟨hwanted, rfl, rfl⟩)
    | some c => exact .inr (.inr ⟨c, hwanted, rfl, rfl⟩)
  · rw [if_neg hwanted, if_neg hwanted]
    exact .inl ⟨hwanted, rfl, rfl⟩

theorem Table.write_written (t : Table) (wf : WaveFile) :
    (t.write wf).written = t.written ++ [t.index] := rfl

theorem Table.write_self (t : Table) (wf : WaveFile) :
    (t.write wf).mywavs t.index = wf :=
  Function.update_self _ _ _

theorem Table.write_ne (t : Table) (wf : WaveFile) {i : Nat}
    (h : i ≠ t.index) : (t.write wf).mywavs i = t.mywavs i :=
  Function.update_of_ne h _ _

/-- The attempts of a listing with one more name. -/
theorem written_concat {name : String} {i : Nat} :
    (∃ (k : Nat) (y : String), (names ++ [name])[k]? = some y ∧ Wanted y ∧
      i = (loadable read ((names ++ [name]).take k)).length) ↔
    (∃ (k : Nat) (y : String), names[k]? = some y ∧ Wanted y ∧
      i = (loadable read (names.take k)).length) ∨
    (Wanted name ∧ i = (loadable read names).length) := by
  constructor
  · rintro ⟨k, y, hk, hy, hi⟩
    rcases getElem?_concat_iff.1 hk with hk | ⟨rfl, rfl⟩
    · have hlt := (List.getElem?_eq_some_iff.1 hk).1
      rw [List.take_append_of_le_length hlt.le] at hi
      exact .inl ⟨k, y, hk, hy, hi⟩
    · rw [List.take_left] at hi
      exact .inr ⟨hy, hi⟩
  · rintro (⟨k, y, hk, hy, hi⟩ | ⟨hy, hi⟩)
    · have hlt := (List.getElem?_eq_some_iff.1 hk).1
      refine ⟨k, y, getElem?_concat_iff.2 (.inl hk), hy, ?_⟩
      rw [List.take_append_of_le_length hlt.le]
      exact hi
    · refine ⟨names.length, name, getElem?_concat_iff.2 (.inr ⟨rfl, rfl⟩), hy, ?_⟩
      rw [List.take_left]
      exact hi

section

variable {t : Table} {name : String}

/-- The element that comes next is free. -/
theorem LoadedTo.next_free (h : LoadedTo read names t) :
    t.mywavs t.index = zeroWave :=
  h.rest _ h.index.ge

/-- A name that is skipped. -/
theorem LoadedTo.skip (h : LoadedTo read names t) (hwanted : ¬ Wanted name)
    (hnone : wavFile read name = none) :
    LoadedTo read (names ++ [name]) t := by
  have hsame : loadable read (names ++ [name]) = loadable read names :=
    loadable_concat_of_none hnone
  constructor
  case index => rw [hsame]; exact h.index
  case filled => rw [hsame]; exact h.filled
  case rest => rw [hsame]; exact h.rest
  case written =>
    intro i
    rw [written_concat, h.written]
    exact (or_iff_left (fun hn => hwanted hn.1)).symm

/-- A file that cannot be read: the element is zero again. -/
theorem LoadedTo.fail (h : LoadedTo read names t) (hwanted : Wanted name)
    (hnone : wavFile read name = none) :
    LoadedTo read (names ++ [name])
      (t.write { t.mywavs t.index with fname := none }) := by
  have hsame : loadable read (names ++ [name]) = loadable read names :=
    loadable_concat_of_none hnone
  have hwrite : ∀ i, (t.write { t.mywavs t.index with fname := none }).mywavs
      i = t.mywavs i := by
    intro i
    by_cases hi : i = t.index
    · rw [hi, t.write_self, h.next_free]
      rfl
    · exact t.write_ne _ hi
  constructor
  case index => rw [hsame]; exact h.index
  case filled =>
    intro i wf hwf
    rw [hsame] at hwf
    rw [hwrite]
    exact h.filled i wf hwf
  case rest =>
    intro i hi
    rw [hsame] at hi
    rw [hwrite]
    exact h.rest i hi
  case written =>
    intro i
    rw [written_concat, Table.write_written, List.mem_append, h.written,
      List.mem_singleton, h.index]
    exact or_congr_right (iff_and_self.2 (fun _ => hwanted))

/-- A file that is read. -/
theorem LoadedTo.load {c : Loaded} (h : LoadedTo read names t)
    (hwanted : Wanted name)
    (hsome : wavFile read name =
      some (c.into { zeroWave with fname := some name })) :
    LoadedTo read (names ++ [name])
      { t.write (c.into { t.mywavs t.index with fname := some name }) with
        index := t.index + 1 } := by
  have hmore : loadable read (names ++ [name]) = loadable read names ++
      [c.into { zeroWave with fname := some name }] :=
    loadable_concat_of_some hsome
  rw [h.next_free]
  constructor
  case index =>
    rw [hmore, List.length_append, ← h.index]
    rfl
  case filled =>
    intro i wf hwf
    rw [hmore] at hwf
    rcases getElem?_concat_iff.1 hwf with hold | ⟨hi, hwf⟩
    · have hlt := (List.getElem?_eq_some_iff.1 hold).1
      rw [← h.filled i wf hold]
      exact t.write_ne _ (by rw [h.index]; exact hlt.ne)
    · rw [← hwf, hi, ← h.index]
      exact t.write_self _
  case rest =>
    intro i hi
    rw [hmore, List.length_append, List.length_singleton] at hi
    rw [← h.rest i (by omega)]
    exact t.write_ne _ (by rw [h.index]; omega)
  case written =>
    intro i
    show i ∈ t.written ++ [t.index] ↔ _
    rw [written_concat, List.mem_append, h.written, List.mem_singleton,
      h.index]
    exact or_congr_right (iff_and_self.2 (fun _ => hwanted))

/-- One name more. -/
theorem LoadedTo.step (h : LoadedTo read names t) (hname : name.length < 250) :
    LoadedTo read (names ++ [name]) (loadFile read t name) := by
  rcases loadFile_cases read t hname with ⟨hwanted, hnone, heq⟩ |
    ⟨hwanted, hnone, heq⟩ | ⟨c, hwanted, hsome, heq⟩
  · rw [heq]
    exact h.skip hwanted hnone
  · rw [heq]
    exact h.fail hwanted hnone
  · rw [heq]
    exact h.load hwanted hsome

end

theorem foldl_loadedTo (hnames : ∀ name ∈ names, name.length < 250) :
    LoadedTo read names (names.foldl (loadFile read) .init) := by
  induction names using List.reverseRecOn with
  | nil =>
      refine ⟨rfl, fun i wf h => ?_, fun i _ => rfl, fun i => ?_⟩
      · cases h
      refine iff_of_false List.not_mem_nil ?_
      rintro ⟨k, name, h, -⟩
      cases h
  | append_singleton names name ih =>
      rw [List.foldl_append]
      exact (ih (fun y hy => hnames y (List.mem_append_left _ hy))).step
        (hnames name (List.mem_append_right _ List.mem_cons_self))

/-! ## The call -/

/-- The directory is not a file, so an empty name adds nothing. -/
theorem loadable_found (hdir : read "wavs\\" = none) :
    loadable read (found names) = loadable read names := by
  rw [found]
  split
  · rename_i hnil
    have hempty : wavFile read "" = none := by
      rw [wavFile, show "wavs\\" ++ "" = "wavs\\" from rfl, hdir]
      exact ite_self _
    rw [hnil, loadable, List.filterMap_cons_none hempty]
    rfl
  · rfl

theorem neverFull_found :
    NeverFull read (found names) ↔ NeverFull read names := by
  rw [found]
  split
  · rename_i hnil
    rw [hnil]
    refine iff_of_true ?_ (fun k name hk => by cases hk)
    intro k name hk _
    have hk0 : k = 0 := by
      have := (List.getElem?_eq_some_iff.1 hk).1
      simpa using this
    rw [hk0]
    exact Nat.succ_pos 99
  · exact Iff.rfl

theorem found_length (hnames : ∀ name ∈ names, name.length < 250) :
    ∀ name ∈ found names, name.length < 250 := by
  rw [found]
  split
  · intro name hname
    rw [List.mem_singleton.1 hname]
    exact Nat.succ_pos 249
  · exact hnames

/-- The table after a call of `load_wavs`. -/
theorem loadWavs_loadedTo (read : String → Option Loaded)
    (hnames : ∀ name ∈ names, name.length < 250) :
    LoadedTo read (found names) (loadWavs read names) :=
  foldl_loadedTo (found_length hnames)

end

/-! ## What `play_index` finds -/

section

variable {F : Type} [IntCast F] {read : String → Option Loaded}
  {names : List String}

/-- The program after `load_wavs`. -/
def loadedWorld (g : Globals F) (read : String → Option Loaded)
    (names : List String) : World F :=
  .init g (fun i => (loadWavs read names).mywavs i)

theorem mem_loadable_of_fileAt {g : Globals F} {i : Int} {wf : WaveFile}
    (hnames : ∀ name ∈ names, name.length < 250)
    (h : (loadedWorld g read names).fileAt i = some wf) :
    wf ∈ loadable read (found names) := by
  have htable := loadWavs_loadedTo read hnames
  rw [World.fileAt] at h
  split at h
  · dsimp only at h
    split at h
    · cases h
    · rename_i hname
      have hwf : (loadWavs read names).mywavs i.toNat = wf := Option.some.inj h
      rcases Nat.lt_or_ge i.toNat (loadable read (found names)).length with
        hlt | hge
      · rw [← hwf, htable.filled _ _ (List.getElem?_eq_getElem hlt)]
        exact List.getElem_mem hlt
      · -- a free element has no name
        exact absurd (congrArg WaveFile.fname (htable.rest _ hge)) hname
  · cases h

/-- A file in the table has been read from the file system. -/
theorem reads_of_fileAt {fs : String → Option (List UInt8)}
    {buf : String → Buf} {malloc : Nat → Bool}
    (hread : ∀ path wfile, Reads (fs path) (buf path) malloc wfile
      (readInto (read path) wfile).1 (readInto (read path) wfile).2)
    (hnames : ∀ name ∈ names, name.length < 250) {g : Globals F} {i : Int}
    {wf : WaveFile} (h : (loadedWorld g read names).fileAt i = some wf) :
    ∃ path wfile, Reads (fs path) (buf path) malloc wfile true wf := by
  obtain ⟨name, -, hname⟩ := List.mem_filterMap.1
    (mem_loadable_of_fileAt hnames h)
  rw [wavFile] at hname
  split at hname
  · obtain ⟨c, hc, rfl⟩ := Option.map_eq_some_iff.1 hname
    refine ⟨"wavs\\" ++ name, { zeroWave with fname := some name }, ?_⟩
    have := hread ("wavs\\" ++ name) { zeroWave with fname := some name }
    rw [hc] at this
    exact this
  · cases hname

end

/-! ## When the table is filled -/

/-- **The table of files.**  It is filled in order and nothing behind it is
written exactly if fewer than a hundred files have been read whenever another
one is attempted. -/
theorem loadsInOrder_iff (read : String → Option Loaded) (names : List String)
    (hnames : ∀ name ∈ names, name.length < 250)
    (hdir : read "wavs\\" = none) :
    LoadsInOrder read names ↔ NeverFull read names := by
  have h := loadWavs_loadedTo read hnames
  have hfilled := h.filled
  have hrest := h.rest
  rw [loadable_found hdir] at hfilled hrest
  rw [← neverFull_found]
  constructor
  · intro hload k name hk hwanted
    exact hload.inside _ ((h.written _).2 ⟨k, name, hk, hwanted, rfl⟩)
  · intro hnever
    constructor
    case inside =>
      intro i hi
      obtain ⟨k, name, hk, hwanted, rfl⟩ := (h.written i).1 hi
      exact hnever k name hk hwanted
    case filled =>
      intro i wf hwf
      rw [List.getElem?_take] at hwf
      split at hwf
      · exact hfilled i wf hwf
      · cases hwf
    case rest =>
      intro i _ hi
      rw [hrest i hi]
      rfl

/-- Every path but that of the directory is a file with one sample. -/
def oneSample (path : String) : Option Loaded :=
  if path = "wavs\\" then none
  else some ⟨[7, 0], 2, 44100, 1, 16⟩

/-- A listing with one file to be skipped is loaded in order. -/
theorem loadsInOrder_twoFiles :
    LoadsInOrder oneSample ["example.wav", "a.wav"] := by
  refine (loadsInOrder_iff oneSample ["example.wav", "a.wav"] (by decide)
    (by decide)).2 fun k name _ _ => ?_
  have hfiles := List.length_filterMap_le (wavFile oneSample)
    (["example.wav", "a.wav"].take k)
  have hnames := List.length_take_le' k ["example.wav", "a.wav"]
  have htwo : ["example.wav", "a.wav"].length = 2 := rfl
  rw [loadable]
  omega

/-- The names a.wav, aa.wav and so on. -/
def fileName (k : Nat) : String :=
  String.ofList (List.replicate (k + 1) 'a' ++ ['.', 'w', 'a', 'v'])

theorem fileName_length (k : Nat) : (fileName k).length = k + 5 := by
  rw [fileName, String.length_ofList, List.length_append, List.length_replicate]
  rfl

theorem fileName_wanted (k : Nat) : Wanted (fileName k) := by
  intro h
  have he : 'e' ∈ (fileName k).toList := h.subset (by decide)
  rw [fileName, String.toList_ofList, List.mem_append, List.mem_replicate] at he
  rcases he with ⟨-, he⟩ | he
  · exact absurd he (by decide)
  · exact absurd he (by decide)

/-- All of them can be read. -/
theorem wavFile_fileName (k : Nat) :
    wavFile oneSample (fileName k) = some
      ((⟨[7, 0], 2, 44100, 1, 16⟩ : Loaded).into
        { zeroWave with fname := some (fileName k) }) := by
  have hpath : "wavs\\" ++ fileName k ≠ "wavs\\" := by
    intro heq
    have hlen := congrArg String.length heq
    rw [String.length_append, fileName_length] at hlen
    omega
  rw [wavFile, if_pos (fileName_wanted k), oneSample, if_neg hpath]
  rfl

theorem loadable_fileName (n : Nat) :
    (loadable oneSample ((List.range n).map fileName)).length = n := by
  induction n with
  | zero => rfl
  | succ n ih =>
      rw [List.range_succ, List.map_append, List.map_singleton,
        loadable_concat_of_some (wavFile_fileName n), List.length_append, ih]
      rfl

/-- With a hundred and one files the last one is read into the element behind
the table. -/
theorem not_loadsInOrder :
    ¬ ∀ (read : String → Option Loaded) (names : List String),
      (∀ name ∈ names, name.length < 250) → read "wavs\\" = none →
      LoadsInOrder read names := by
  intro h
  have hnames : ∀ name ∈ (List.range 101).map fileName, name.length < 250 := by
    intro name hname
    obtain ⟨k, hk, rfl⟩ := List.mem_map.1 hname
    rw [fileName_length]
    have := List.mem_range.1 hk
    omega
  have hload := h oneSample ((List.range 101).map fileName) hnames (by decide)
  have hmem := ((loadWavs_loadedTo oneSample hnames).written 100).2
    ⟨100, fileName 100, rfl, fileName_wanted 100, by
      rw [show (found ((List.range 101).map fileName)).take 100 =
        (List.range 100).map fileName from rfl, loadable_fileName]⟩
  exact Nat.lt_irrefl 100 (hload.inside 100 hmem)

end Bucktoot.Ports.LoadWavs
