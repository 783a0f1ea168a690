import Bucktoot.Ports.ReadWaveForward

/-!
# What `read_wave_file` accepts

`Genuine b r` says that the fields of `r` are contents of the file `b`: of a
`fmt ` chunk of at least sixteen bytes and of a later `data` chunk, both on the
forward walk from offset 12 and both inside the file.  `SoundRead` asks this of
every accepting call, and of every rejecting one that the `WAVE_FILE` is
untouched.

The second half holds of every file.  The first fails where the walk meets a
header or a `fmt ` chunk that does not fit: `emptyFmt` declares a `fmt ` chunk
of size zero, and the sixteen bytes read for it are the `data` chunk behind it.
Of the `data` header itself little is asked.  It has to be complete, and its
size matters only where all of its bytes are there and `malloc` grants them:
from `2 ^ 31` on it becomes a negative `wav_len`, and otherwise the call
rejects the file.
-/

namespace Bucktoot.Ports.ReadWave

open Bucktoot.Verified.LittleEndian
open Bucktoot.Verified.WhileLoop

/-- The forward walk from chunk to chunk, over complete headers. -/
def Walks (b : List UInt8) : Nat → Nat → Prop :=
  Relation.ReflTransGen (fun p q => p + 8 ≤ b.length ∧ q = nextChunk b p)

/-- The chunks at `p` and `q` lie inside the file, one behind the other on the
forward walk, and are what `r` was filled from. -/
structure FilledFrom (b : List UInt8) (r : WaveFile) (p q : Nat) : Prop where
  toFmt : Walks b 12 p
  isFmt : tagAt b p = fmtTag
  fmtSize : 16 ≤ sizeAt b p
  fmtInside : nextChunk b p ≤ b.length
  toData : Walks b (nextChunk b p) q
  isData : tagAt b q = dataTag
  dataInside : nextChunk b q ≤ b.length
  sampleRate : r.sampleRate =
    get32bit (byteAt b (p + 8 + 4)) (byteAt b (p + 8 + 5))
      (byteAt b (p + 8 + 6)) (byteAt b (p + 8 + 7))
  channels : r.channels =
    get16bit (byteAt b (p + 8 + 2)) (byteAt b (p + 8 + 3))
  bits : r.bits = get16bit (byteAt b (p + 8 + 14)) (byteAt b (p + 8 + 15))
  wavLen : r.wavLen = sizeAt b q
  wavData : r.wavData = (b.drop (q + 8)).take (sizeAt b q)

/-- The file has a complete RIFF/WAVE header and `r` was filled from its
chunks. -/
def Genuine (b : List UInt8) (r : WaveFile) : Prop :=
  12 ≤ b.length ∧ tagAt b 0 = riffTag ∧ tagAt b 8 = waveTag ∧
    ∃ p q, FilledFrom b r p q

/-- Every accepting call is genuine, every rejecting one changes nothing. -/
def SoundRead (b : List UInt8) (buf : Buf) (malloc : Nat → Bool)
    (wfile : WaveFile) : Prop :=
  ∀ ok r, Reads (some b) buf malloc wfile ok r →
    (ok = true → Genuine b r) ∧ (ok = false → r = wfile)

/-! ## Rejection -/

/-- A rejecting call leaves the `WAVE_FILE` as it was, on every file. -/
theorem unchanged_of_reads_false {fopen : Option (List UInt8)} {buf : Buf}
    {malloc : Nat → Bool} {wfile r : WaveFile}
    (h : Reads fopen buf malloc wfile false r) : r = wfile := by
  cases fopen with
  | none =>
      obtain ⟨_, hf⟩ := h
      simpa [readWaveFile] using hf.symm
  | some b =>
      by_cases hriff : RiffHeader (headerBuf b buf)
      · rw [reads_iff_returns hriff] at h
        refine returns_invariant (fun _ => True)
          (fun out => out.1 = false → out.2 = wfile) (fun _ _ _ _ => trivial)
          ?_ trivial h rfl
        intro w out _ hleave hfalse
        rw [chunkStep_leave hleave, Parse.finish] at hfalse ⊢
        split at hfalse
        · cases hfalse
        · rename_i hfail
          rw [if_neg hfail]
      · exact ((reads_of_not_riffHeader hriff _ _ _ _).1 h).2

/-! ## Acceptance -/

/-- The size of the `data` chunk that the walk comes to is not negative as an
`int`, if its body is in the file and `malloc` grants it. -/
def DataFits (malloc : Nat → Bool) (b : List UInt8) : Prop :=
  ∀ p q, FirstChunk b fmtTag 12 p → FirstChunk b dataTag (nextChunk b p) q →
    malloc (sizeAt b q) = true → nextChunk b q ≤ b.length →
    sizeAt b q < 2147483648

/-- On a clean stretch the chunks visited are on the forward walk. -/
theorem Visits.walks {b : List UInt8} {tag : Tag} {p q : Nat}
    (h : Visits b tag p q) (hclean : CleanUpTo b tag p) : Walks b p q := by
  induction h with
  | refl => exact .refl
  | tail hfirst hlast ih => exact ih.tail ⟨(hclean _ hfirst).1, hlast.2⟩

/-- What the two chunks of a walk that is clean up to its `data` header are
decoded to is genuine. -/
theorem filledFrom_decoded {b : List UInt8} {p q : Nat}
    (wfile : WaveFile) (hclean : CleanToData b)
    (hp : FirstChunk b fmtTag 12 p)
    (hq : FirstChunk b dataTag (nextChunk b p) q)
    (hinside : nextChunk b q ≤ b.length) :
    FilledFrom b (decoded wfile b p q) p q := by
  obtain ⟨hfits, hahead⟩ := hclean.2 p hp
  exact
    { toFmt := Visits.walks hp.1 hclean.1.upTo
      isFmt := hp.2
      fmtSize := hfits.1
      fmtInside := hfits.2.1
      toData := Visits.walks hq.1 hahead
      isData := hq.2
      dataInside := hinside
      sampleRate := rfl
      channels := rfl
      bits := rfl
      wavLen := rfl
      wavData := rfl }

/-- No file is accepted genuinely with a negative `wav_len`. -/
theorem Genuine.wavLen_nonneg {b : List UInt8} {r : WaveFile}
    (h : Genuine b r) : 0 ≤ r.wavLen := by
  obtain ⟨-, -, -, p, q, hfill⟩ := h
  rw [hfill.wavLen]
  omega

variable {malloc : Nat → Bool} {wfile : WaveFile} {b : List UInt8} {buf : Buf}

/-- An accepting call on a walk that is clean up to its `data` header is
genuine, if the size in that header fits. -/
theorem genuine_of_accepts (h12 : 12 ≤ b.length)
    (hriff : RiffHeader (headerBuf b buf)) (hclean : CleanToData b)
    (hdata : DataFits malloc b) {r : WaveFile}
    (hr : Reads (some b) buf malloc wfile true r) : Genuine b r := by
  obtain ⟨p, q, hp, hq, hout⟩ :=
    (reads_iff_of_cleanToData malloc wfile h12 hriff hclean true r).1 hr
  have htags := (riffHeader_iff h12 buf).1 hriff
  by_cases hok : malloc (sizeAt b q) ∧ nextChunk b q ≤ b.length
  · have hsmall := hdata p q hp hq hok.1 hok.2
    rw [takenAt_of_small hsmall, outcomeAt, if_pos hok] at hout
    obtain rfl := (Prod.mk.inj hout).2
    exact ⟨h12, htags.1, htags.2, p, q,
      filledFrom_decoded wfile hclean hp hq hok.2⟩
  · rw [takenAt, if_neg hok] at hout
    cases (Prod.mk.inj hout).1

/-- A call that is sound does not take a `data` size for a negative `int`. -/
theorem SoundRead.dataFits (hsound : SoundRead b buf malloc wfile)
    (h12 : 12 ≤ b.length) (hriff : RiffHeader (headerBuf b buf))
    (hclean : CleanToData b) : DataFits malloc b := by
  intro p q hp hq hmalloc hinside
  have hr := (reads_iff_of_cleanToData malloc wfile h12 hriff hclean true _).2
    ⟨p, q, hp, hq, by rw [takenAt, if_pos ⟨hmalloc, hinside⟩]⟩
  have hlen : 0 ≤ signed32 (sizeAt b q) :=
    ((hsound true _ hr).1 rfl).wavLen_nonneg
  have hword := sizeAt_lt b q
  unfold signed32 at hlen
  split at hlen <;> omega

variable (malloc wfile b buf)

/-- **Soundness of the reader.**  Where the header test fails, where the walk
never comes to its `data` header, and on every complete header with a walk
behind it that is clean up to the `data` header, accepting calls are genuine
and rejecting ones change nothing, exactly if the size in the `data` header
fits. -/
theorem soundRead_iff_of_cleanToData
    (hclean : RiffHeader (headerBuf b buf) → ReachesData b buf →
      12 ≤ b.length ∧ CleanToData b) :
    SoundRead b buf malloc wfile ↔
      (RiffHeader (headerBuf b buf) → ReachesData b buf →
        DataFits malloc b) := by
  constructor
  · intro hsound hriff hreach
    obtain ⟨h12, hwalk⟩ := hclean hriff hreach
    exact hsound.dataFits h12 hriff hwalk
  · intro hdata ok r hr
    refine ⟨?_, ?_⟩
    · rintro rfl
      by_cases hriff : RiffHeader (headerBuf b buf)
      · have hterm := (readEnds_iff_terminates hriff malloc wfile).1 ⟨_, _, hr⟩
        have hreach := (terminates_start_iff malloc wfile b buf).1 hterm
        obtain ⟨h12, hwalk⟩ := hclean hriff hreach
        exact genuine_of_accepts h12 hriff hwalk (hdata hriff hreach) hr
      · cases ((reads_of_not_riffHeader hriff _ _ _ _).1 hr).1
    · rintro rfl
      exact unchanged_of_reads_false hr

/-- A `fmt ` chunk of sixteen bytes and a `data` chunk of two. -/
def plainFile : List UInt8 :=
  [0x52, 0x49, 0x46, 0x46, 38, 0, 0, 0, 0x57, 0x41, 0x56, 0x45,
    0x66, 0x6d, 0x74, 0x20, 16, 0, 0, 0,
    1, 0, 1, 0, 0x44, 0xac, 0, 0, 0x88, 0x58, 1, 0, 2, 0, 16, 0,
    0x64, 0x61, 0x74, 0x61, 2, 0, 0, 0, 7, 0]

/-- The same with a size of `2 ^ 32 - 1` in the `data` header. -/
def boundlessFile : List UInt8 :=
  plainFile.take 40 ++ [0xff, 0xff, 0xff, 0xff, 7, 0]

/-- A file whose first chunk is a `fmt ` chunk that fits, with a complete
`data` header right behind it. -/
theorem cleanToData_of_tags {b : List UInt8} (hfits : HeaderFits b 12)
    (hfmt : tagAt b 12 = fmtTag) (hroom : FmtFits b 12)
    (hend : nextChunk b 12 + 8 ≤ b.length)
    (hdata : tagAt b (nextChunk b 12) = dataTag) : CleanToData b := by
  refine ⟨cleanAhead_of_target hfits hfmt, fun p hp => ?_⟩
  rw [hp.1.eq_of_target hfmt]
  refine ⟨hroom, fun q hq => ?_⟩
  rw [hq.eq_of_target hdata]
  exact ⟨hend, fun hne => absurd hdata hne⟩

/-- On `plainFile` the call is sound and accepts, on `boundlessFile` it is
sound and rejects. -/
theorem soundRead_plainFile :
    (SoundRead plainFile (fun _ => 0) (fun _ => true) freshWave ∧
      Reads (some plainFile) (fun _ => 0) (fun _ => true) freshWave true
        ⟨some "a.wav", [7, 0], 2, 44100, 1, 16⟩) ∧
    (SoundRead boundlessFile (fun _ => 0) (fun _ => true) freshWave ∧
      Reads (some boundlessFile) (fun _ => 0) (fun _ => true) freshWave false
        freshWave) := by
  have hplain : CleanToData plainFile :=
    cleanToData_of_tags (by decide) (by decide) (by decide) (by decide)
      (by decide)
  have hboundless : CleanToData boundlessFile :=
    cleanToData_of_tags (by decide) (by decide) (by decide) (by decide)
      (by decide)
  refine ⟨⟨(soundRead_iff_of_cleanToData (fun _ => true) freshWave plainFile
      (fun _ => 0) (fun _ _ => ⟨by decide, hplain⟩)).2 ?_, 2, by decide⟩,
    ⟨(soundRead_iff_of_cleanToData (fun _ => true) freshWave boundlessFile
      (fun _ => 0) (fun _ _ => ⟨by decide, hboundless⟩)).2 ?_, 2, by decide⟩⟩
  · intro _ _ p q hp hq _ _
    rw [hp.1.eq_of_target (show tagAt plainFile 12 = fmtTag by decide)] at hq
    rw [hq.1.eq_of_target (show tagAt plainFile 36 = dataTag by decide)]
    decide
  · intro _ _ p q hp hq _ hinside
    rw [hp.1.eq_of_target
      (show tagAt boundlessFile 12 = fmtTag by decide)] at hq
    rw [hq.1.eq_of_target
      (show tagAt boundlessFile 36 = dataTag by decide)] at hinside
    exact absurd hinside (by decide)

/-- A `fmt ` chunk of size zero with a `data` chunk of eight bytes behind
it. -/
def emptyFmt : List UInt8 :=
  [0x52, 0x49, 0x46, 0x46, 28, 0, 0, 0, 0x57, 0x41, 0x56, 0x45,
    0x66, 0x6d, 0x74, 0x20, 0, 0, 0, 0,
    0x64, 0x61, 0x74, 0x61, 8, 0, 0, 0, 0, 0, 0, 0, 0, 0, 0, 0]

/-- The forward walk over `emptyFmt` has one `fmt ` chunk, of size zero. -/
theorem emptyFmt_walk {p : Nat} (h : Walks emptyFmt 12 p)
    (ht : tagAt emptyFmt p = fmtTag) : p = 12 := by
  have hstep : ∀ {x y : Nat}, Walks emptyFmt x y →
      x = y ∨ (x + 8 ≤ emptyFmt.length ∧
        Walks emptyFmt (nextChunk emptyFmt x) y) := by
    intro x y hxy
    rcases Relation.ReflTransGen.cases_head hxy with heq | ⟨_, ⟨hx, rfl⟩, hy⟩
    · exact .inl heq
    · exact .inr ⟨hx, hy⟩
  rcases hstep h with rfl | ⟨_, h20⟩
  · rfl
  rcases hstep h20 with rfl | ⟨_, h36⟩
  · exact absurd ht (by decide)
  rcases hstep h36 with rfl | ⟨hend, _⟩
  · exact absurd ht (by decide)
  · exact absurd hend (by decide)

/-- `emptyFmt` is accepted, with a format that is in no `fmt ` chunk. -/
theorem emptyFmt_not_soundRead :
    ¬ SoundRead emptyFmt (fun _ => 0) (fun _ => true) freshWave := by
  intro hsound
  have hr : Reads (some emptyFmt) (fun _ => 0) (fun _ => true) freshWave true
      ⟨some "a.wav", [0, 0, 0, 0, 0, 0, 0, 0], 8, 8, 24948, 0⟩ :=
    ⟨2, by decide⟩
  obtain ⟨_, _, _, p, q, hfill⟩ := (hsound _ _ hr).1 rfl
  have hp := emptyFmt_walk hfill.toFmt hfill.isFmt
  have hsize := hfill.fmtSize
  rw [hp] at hsize
  exact absurd hsize (by decide)

end Bucktoot.Ports.ReadWave
