import Bucktoot.Ports.MixerExact
import Bucktoot.Ports.ReadWaveWalk
import Bucktoot.Ports.VoicePool

/-!
# Where the mixer reads

`mix_sample` reads sixteen-bit samples whatever the width of the data is, and
it reads a whole frame wherever the position stands, also where the data ends
in the middle of one.  Whether it stays inside of the data is therefore a
question about the last frame that begins there: `LastFrameFits`.

`safe_iff` says that this condition, for a file that `read_wave_file` has
returned, is exactly what keeps every read of every callback inside of the
data and every divisor of `fmod` away from zero, whatever `g_speed` is from
one callback to the next.
-/

namespace Bucktoot.Ports.MixerSafety

open Bucktoot.Verified.WhileLoop
open Bucktoot.Ports.Mixer
open Bucktoot.Ports.ReadWave
open Bucktoot.Ports.VoicePool

/-! ## The runs of a voice -/

/-- A buffer of a whole number of frames. -/
def WholeFrames (dst : List UInt8) : Prop := ∃ n, dst.length = 4 * n

/-- A voice after a series of callbacks, each at a speed of its own.
`mix_samples` calls `mix_sample` while the voice plays, on the buffer as the
voices in front of it have left it. -/
def heardIn : List (ℚ × List UInt8) → WaveSample ℚ → WaveSample ℚ
  | [], s => s
  | (speed, dst) :: rest, s =>
      heardIn rest
        (if s.play ≠ 0 then (mixSample (stereo speed) dst s).sample else s)

/-- Every read of a call is inside of the data and no divisor is zero. -/
def InBounds (s : WaveSample ℚ) (m : Mix ℚ) : Prop :=
  (∀ p ∈ m.reads, 0 ≤ p ∧ p < s.dataLen) ∧ ∀ d ∈ m.divisors, d ≠ 0

/-- However a voice of the file is started and whatever is called before, a
call of `mix_sample` on it is in bounds. -/
def Safe (wf : WaveFile) (loop : Int) : Prop :=
  ∀ (speed₀ : ℚ) (ws : WaveSample ℚ),
    startVoice (stereo speed₀) wf loop = some ws →
    ∀ callbacks : List (ℚ × List UInt8),
      (∀ c ∈ callbacks, WholeFrames c.2) →
      ∀ (speed : ℚ) (dst : List UInt8), WholeFrames dst →
        (heardIn callbacks { ws with play := 1 }).play ≠ 0 →
        InBounds (heardIn callbacks { ws with play := 1 })
          (mixSample (stereo speed) dst
            (heardIn callbacks { ws with play := 1 }))

/-- The bytes of a frame of the file. -/
def fileFrame (wf : WaveFile) : Int := wf.bits / 8 * wf.channels

/-- How far `mix_sample` reads from the beginning of a frame. -/
def readWidth (wf : WaveFile) : Int := if wf.channels > 1 then 4 else 2

/-- The mixer has no frame size to work with; or there is no data and no loop;
or the last frame that begins inside of the data has as many bytes there as
are read. -/
def LastFrameFits (wf : WaveFile) (loop : Int) : Prop :=
  fileFrame wf = 0 ∨ (wf.wavLen ≤ 0 ∧ loop = 0) ∨
    (0 < wf.wavLen ∧
      fileFrame wf * ((wf.wavLen - 1) / fileFrame wf) + readWidth wf ≤
        wf.wavLen)

instance (wf : WaveFile) (loop : Int) : Decidable (LastFrameFits wf loop) := by
  unfold LastFrameFits
  infer_instance

/-! ## What `read_wave_file` returns -/

/-- The two sixteen-bit fields of the format are never negative. -/
theorem format_of_reads {fopen : Option (List UInt8)} {buf : Buf}
    {malloc : Nat → Bool} {wfile wf : WaveFile}
    (h : Reads fopen buf malloc wfile true wf) :
    0 ≤ wf.bits ∧ 0 ≤ wf.channels := by
  cases fopen with
  | none =>
      obtain ⟨_, hf⟩ := h
      simp [readWaveFile] at hf
  | some b =>
      by_cases hriff : RiffHeader (headerBuf b buf)
      · rw [reads_iff_returns hriff] at h
        refine returns_invariant (fun w : Parse => 0 ≤ w.bits ∧ 0 ≤ w.channels)
          (fun out => out.1 = true → 0 ≤ out.2.bits ∧ 0 ≤ out.2.channels)
          ?_ ?_ ⟨Int.le_refl 0, Int.le_refl 0⟩ h rfl
        · intro w w' hw hagain
          rcases chunkStep_again hagain with rfl | rfl
          · exact hw
          · unfold Parse.enterFmt
            dsimp only
            split
            · exact ⟨Int.natCast_nonneg _, Int.natCast_nonneg _⟩
            · exact hw
        · intro w out hw hleave htrue
          rw [chunkStep_leave hleave, Parse.finish] at htrue ⊢
          split at htrue
          · rename_i hdone
            rw [if_pos hdone]
            exact hw
          · cases htrue
      · cases ((reads_of_not_riffHeader hriff _ _ _ _).1 h).1

theorem fileFrame_nonneg {wf : WaveFile} (h : 0 ≤ wf.bits ∧ 0 ≤ wf.channels) :
    0 ≤ fileFrame wf :=
  Int.mul_nonneg (Int.ediv_nonneg h.1 (by decide)) h.2

/-! ## Reads in bounds -/

theorem heardIn_continues (callbacks : List (ℚ × List UInt8))
    (s : WaveSample ℚ) : Continues s (heardIn callbacks s) := by
  induction callbacks generalizing s with
  | nil => exact .refl s
  | cons c rest ih =>
      unfold heardIn
      split
      · exact (mixSample_continues _ _ s).trans (ih _)
      · exact ih s

variable {wf : WaveFile} {loop : Int} {s : WaveSample ℚ}

theorem frameSize_of_request (h : OfRequest wf loop s) :
    frameSize s = fileFrame wf := by
  rw [frameSize, h.bytes, h.channels, fileFrame]

/-- Its loop points being zero, a started voice is sound as soon as it has a
frame size and data. -/
theorem sound_of_request (h : OfRequest wf loop s) (hsize : 0 < fileFrame wf)
    (hdata : 0 < wf.wavLen) : Sound s where
  size := by rw [frameSize_of_request h]; exact hsize
  data := by rw [h.dataLen]; exact hdata
  loop := by
    intro _
    have hstop : stopByte s = s.dataLen := by
      rw [stopByte, h.loopEnd, if_neg (by decide)]
    rw [hstop, h.loopStart, h.dataLen]
    omega

theorem frameCount_of_request (h : OfRequest wf loop s) :
    frameCount s = (wf.wavLen : ℚ) / (fileFrame wf : ℚ) := by
  rw [frameCount, h.dataLen, frameSize_of_request h]

/-- A voice without data that does not loop is ended by its check. -/
theorem entry_of_noData (h : OfRequest wf 0 s) (hsize : 0 < fileFrame wf)
    (hdata : wf.wavLen ≤ 0) : (entry s).play = 0 := by
  apply entry_of_outside h.doLoop
  rintro ⟨h0, hlt⟩
  have hcount : frameCount s ≤ 0 := by
    rw [frameCount_of_request h]
    apply div_nonpos_of_nonpos_of_nonneg
    · exact_mod_cast hdata
    · exact_mod_cast hsize.le
  linarith

/-- The bytes read for a frame are the next ones, as many as `readWidth`
says. -/
theorem mem_readsOf (h : OfRequest wf loop s) {pos p : Int} :
    p ∈ readsOf s pos ↔ pos ≤ p ∧ p < pos + readWidth wf := by
  simp only [readsOf, rightIndex, readWidth, h.channels, List.mem_cons,
    List.not_mem_nil, or_false]
  split <;> omega

/-- A call on a sound voice is in bounds if the last frame fits. -/
theorem inBounds_of_sound (h : OfRequest wf loop s) (hs : Sound s)
    (hfit : fileFrame wf * ((wf.wavLen - 1) / fileFrame wf) + readWidth wf ≤
      wf.wavLen)
    (speed : ℚ) {dst : List UInt8} (hdst : WholeFrames dst) :
    InBounds s (mixSample (stereo speed) dst s) := by
  obtain ⟨n, hn⟩ := hdst
  have hmixed := mixSample_mixed (g := stereo speed) rfl hn s
  have hsize : 0 < fileFrame wf := by
    rw [← frameSize_of_request h]
    exact hs.size
  constructor
  · intro p hp
    rw [hmixed.reads, List.nil_append, List.mem_flatMap] at hp
    obtain ⟨pos, hpos, hp⟩ := hp
    obtain ⟨j, hj0, hjlt, rfl⟩ := hs.voiceRun_mem _ hpos
    rw [mem_readsOf h, frameSize_of_request h] at hp
    rw [frameSize_of_request h, h.dataLen] at hjlt
    have hj : j ≤ (wf.wavLen - 1) / fileFrame wf := by
      rw [Int.le_ediv_iff_mul_le hsize, Int.mul_comm]
      omega
    have hmul := Int.mul_le_mul_of_nonneg_left hj hsize.le
    have hpos0 := Int.mul_nonneg hsize.le hj0
    rw [h.dataLen]
    omega
  · intro d hd
    rcases hmixed.divisors d hd with hd | hd
    · cases hd
    · rw [hd]
      exact hs.frameCount_pos.ne'

/-- A voice without a frame size is not touched. -/
theorem mixSample_of_request_noFrame (h : OfRequest wf loop s)
    (hsize : fileFrame wf ≤ 0) (g : Globals ℚ) (dst : List UInt8) :
    mixSample g dst s = ⟨dst, s, [], [], []⟩ := by
  rw [← frameSize_of_request h] at hsize
  exact mixSample_of_noFrame hsize

/-- A voice without data that does not loop is ended before anything is
read. -/
theorem mixSample_of_request_noData (h : OfRequest wf 0 s)
    (hsize : 0 < fileFrame wf) (hdata : wf.wavLen ≤ 0) (g : Globals ℚ)
    (dst : List UInt8) : mixSample g dst s = ⟨dst, entry s, [], [], []⟩ := by
  have hend := entry_of_noData h hsize hdata
  rw [← frameSize_of_request h] at hsize
  exact mixSample_of_ended hsize hend

theorem inBounds_of_no_access (dst : List UInt8) (t : WaveSample ℚ) :
    InBounds s ⟨dst, t, [], [], []⟩ := by
  simp [InBounds]

/-- A file whose last frame fits is safe. -/
theorem safe_of_lastFrameFits (hformat : 0 ≤ wf.bits ∧ 0 ≤ wf.channels)
    (hfit : LastFrameFits wf loop) : Safe wf loop := by
  intro speed₀ ws hws callbacks _ speed dst hdst _
  have hstored := (startVoice_ofRequest hws).1.stored
  have h := hstored.continues (heardIn_continues callbacks _)
  have hnonneg := fileFrame_nonneg hformat
  rcases Int.lt_or_eq_of_le hnonneg with hsize | hsize
  · rcases hfit with hzero | ⟨hempty, hloop⟩ | ⟨hdata, hlast⟩
    · omega
    · rw [hloop] at h
      rw [mixSample_of_request_noData h hsize hempty]
      exact inBounds_of_no_access _ _
    · exact inBounds_of_sound h (sound_of_request h hsize hdata) hlast speed hdst
  · rw [mixSample_of_request_noFrame h hsize.symm.le]
    exact inBounds_of_no_access _ _

/-! ## Reads out of bounds -/

/-- A looping voice reads something from every buffer, whether it has data or
not. -/
theorem voiceRun_of_loop (h : OfRequest wf loop s) (hsize : 0 < fileFrame wf)
    (hloop : loop ≠ 0) (hplay : s.play ≠ 0) (g : Globals ℚ) :
    ∃ pos, pos ∈ (voiceRun g 1 s).1 := by
  have hsize' : ¬ s.bytes * s.channels ≤ 0 := by
    have := frameSize_of_request h
    unfold frameSize at this
    omega
  have hclamp : (checkLoop s ((s.bytes * s.channels : Int) : ℚ)).play ≠ 0 := by
    rw [checkLoop_play_of_loop (by rw [h.doLoop]; exact hloop)]
    exact hplay
  unfold voiceRun
  dsimp only
  rw [if_neg hsize', clampCurrentFrame_eq_checkLoop, if_neg hclamp]
  exact ⟨_, List.mem_cons_self⟩

/-- A started voice inside of its data passes its check as it is. -/
theorem entry_of_inData (h : OfRequest wf loop s)
    (hin : InData s) : entry s = s := by
  by_cases hloop : s.doLoop = 0
  · exact entry_of_inside hloop hin
  · obtain ⟨h0, hlt⟩ := hin
    have hfrom : loopFrom s (frameSize s : ℚ) = 0 := by
      rw [loopFrom, h.loopStart]
      simp
    have hto : loopTo s (frameSize s : ℚ) = frameCount s := by
      rw [loopTo, if_neg (not_not.2 h.loopEnd)]
      rfl
    rw [entry, checkLoop_of_loop hloop, hfrom, hto, wrap_eq,
      if_neg (not_le.2 hlt), if_neg (not_lt.2 h0)]

/-- A sound voice that stands on a frame and passes its check reads that frame
first. -/
theorem mem_voiceRun (hs : Sound s) (hentry : entry s = s)
    (hplay : s.play ≠ 0) {k : Int} (hk : s.currentFrame = k) (g : Globals ℚ) :
    frameSize s * k ∈ (voiceRun g 1 s).1 := by
  have hframe := hs.voiceRun_frame g 1 0
  have hzero : after g 0 s = s := rfl
  rw [hentry, hzero, if_pos ⟨Nat.one_pos, hplay⟩, hk, Int.floor_intCast] at hframe
  exact List.mem_of_getElem? hframe

/-- One frame of silence to mix into. -/
def silence : List UInt8 := List.replicate 4 0

theorem silence_wholeFrames : WholeFrames silence := ⟨1, rfl⟩

/-- What a voice reads for the frames it comes to. -/
theorem reads_silence (g : ℚ) (s : WaveSample ℚ) :
    (mixSample (stereo g) silence s).reads =
      (voiceRun (stereo g) 1 s).1.flatMap (readsOf s) := by
  have hmixed := mixSample_mixed (g := stereo g) rfl
    (show silence.length = 4 * 1 from rfl) s
  rw [hmixed.reads, List.nil_append]

/-- A looping voice without data is out of bounds with its first read. -/
theorem not_inBounds_of_emptyLoop (h : OfRequest wf loop s)
    (hsize : 0 < fileFrame wf) (hdata : wf.wavLen ≤ 0) (hloop : loop ≠ 0)
    (hplay : s.play ≠ 0) (g : ℚ) :
    ¬ InBounds s (mixSample (stereo g) silence s) := by
  rintro ⟨hreads, -⟩
  obtain ⟨pos, hpos⟩ := voiceRun_of_loop h hsize hloop hplay (stereo g)
  have hfirst : pos ∈ readsOf s pos := by
    rw [mem_readsOf h, readWidth]
    split <;> omega
  have hread : pos ∈ (mixSample (stereo g) silence s).reads := by
    rw [reads_silence, List.mem_flatMap]
    exact ⟨pos, hpos, hfirst⟩
  obtain ⟨h0, hlt⟩ := hreads pos hread
  rw [h.dataLen] at hlt
  omega

/-- A voice that plays the frame it stands on in bounds has all of the frame
in its data. -/
theorem frame_fits_of_inBounds (h : OfRequest wf loop s) (hs : Sound s)
    (hin : InData s) (hplay : s.play ≠ 0) {k : Int}
    (hk : s.currentFrame = k) {g : ℚ}
    (hbounds : InBounds s (mixSample (stereo g) silence s)) :
    fileFrame wf * k + readWidth wf ≤ wf.wavLen := by
  have hpos := mem_voiceRun hs (entry_of_inData h hin) hplay hk (stereo g)
  have hread : fileFrame wf * k + readWidth wf - 1 ∈
      (mixSample (stereo g) silence s).reads := by
    rw [reads_silence, List.mem_flatMap]
    refine ⟨_, hpos, ?_⟩
    rw [mem_readsOf h, frameSize_of_request h, readWidth]
    split <;> omega
  have hlt := (hbounds.1 _ hread).2
  rw [h.dataLen] at hlt
  omega

/-- One frame of output takes a voice to any position in its data. -/
theorem heardIn_jump (h : OfRequest wf loop s) (hs : Sound s)
    (hin : InData s) (hplay : s.play ≠ 0) {speed : ℚ}
    (hmoved : InData (moved (stereo speed) s)) :
    heardIn [(speed, silence)] s = moved (stereo speed) s := by
  have hm : OfRequest wf loop (moved (stereo speed) s) :=
    h.continues ⟨rfl, .inl rfl⟩
  have hvoice := hs.mixSample_voice (g := stereo speed) rfl 1
  rw [entry_of_inData h hin, hs.after_succ_of_play _ 0 hplay] at hvoice
  rw [heardIn, if_pos hplay, heardIn]
  exact hvoice.trans (entry_of_inData hm hmoved)

/-- A voice on a frame that begins in its data is inside of it. -/
theorem inData_of_frame (h : OfRequest wf loop s) (hs : Sound s) {k : Int}
    (hk : s.currentFrame = k) (h0 : 0 ≤ k)
    (hlt : fileFrame wf * k < wf.wavLen) : InData s := by
  rw [InData, hk]
  refine ⟨by exact_mod_cast h0, ?_⟩
  rw [frameCount, lt_div_iff₀ hs.size_pos, frameSize_of_request h, h.dataLen,
    mul_comm]
  exact_mod_cast hlt

/-- The last frame that begins in the data does so at an offset in it. -/
theorem lastFrame_mem (hsize : 0 < fileFrame wf) (hdata : 0 < wf.wavLen) :
    0 ≤ (wf.wavLen - 1) / fileFrame wf ∧
      fileFrame wf * ((wf.wavLen - 1) / fileFrame wf) < wf.wavLen := by
  have hmul := Int.mul_ediv_self_le (x := wf.wavLen - 1) hsize.ne'
  exact ⟨Int.ediv_nonneg (by omega) hsize.le, by omega⟩

/-- A safe file has a last frame that fits. -/
theorem lastFrameFits_of_safe (hformat : 0 ≤ wf.bits ∧ 0 ≤ wf.channels)
    (hsafe : Safe wf loop) : LastFrameFits wf loop := by
  obtain ⟨ws, hws, hfirst⟩ := startVoice_forward (g := stereo (0 : ℚ))
    (by simp [stereo]) wf loop
  have h := (startVoice_ofRequest hws).1.stored
  have hrun := hsafe 0 ws hws
  generalize hstored : ({ ws with play := 1 } : WaveSample ℚ) = s at h hrun
  have hplay : s.play ≠ 0 := by
    rw [← hstored]
    exact Int.one_ne_zero
  have hframe : s.currentFrame = 0 := by
    rw [← hstored]
    exact hfirst.trans Int.cast_zero
  by_contra hfit
  have hsize : 0 < fileFrame wf := by
    have hne : fileFrame wf ≠ 0 := fun h0 => hfit (.inl h0)
    have hnonneg := fileFrame_nonneg hformat
    omega
  by_cases hdata : 0 < wf.wavLen
  · -- jump to the last frame that begins in the data, and play it
    have hs := sound_of_request h hsize hdata
    obtain ⟨hk0, hklt⟩ := lastFrame_mem hsize hdata
    generalize hk : (wf.wavLen - 1) / fileFrame wf = k at hk0 hklt
    have hin : InData s :=
      inData_of_frame h hs (k := 0) (by simpa using hframe) (le_refl 0)
        (by simpa using hdata)
    have hm : OfRequest wf loop (moved (stereo (k : ℚ)) s) :=
      h.continues ⟨rfl, .inl rfl⟩
    have hms := sound_of_request hm hsize hdata
    have hposition : (moved (stereo (k : ℚ)) s).currentFrame = k := by
      show s.currentFrame + (k : ℚ) = k
      rw [hframe, zero_add]
    have hmoved := inData_of_frame hm hms hposition hk0 hklt
    have hbounds := hrun [((k : ℚ), silence)]
      (by simpa using silence_wholeFrames) 0 silence silence_wholeFrames
    rw [heardIn_jump h hs hin hplay hmoved] at hbounds
    have hlast := frame_fits_of_inBounds hm hms hmoved hplay hposition
      (hbounds hplay)
    rw [← hk] at hlast
    exact hfit (.inr (.inr ⟨hdata, hlast⟩))
  · -- an empty loop: the first read of all is already outside
    have hempty : wf.wavLen ≤ 0 := Int.not_lt.1 hdata
    have hloop : loop ≠ 0 := fun h0 => hfit (.inr (.inl ⟨hempty, h0⟩))
    exact not_inBounds_of_emptyLoop h hsize hempty hloop hplay 0
      (hrun [] (by simp) 0 silence silence_wholeFrames hplay)

/-- **When the mixer stays inside of the data.**  For a file that
`read_wave_file` has returned, exactly when the last frame that begins in the
data has as many bytes there as are read. -/
theorem safe_iff {fopen : Option (List UInt8)} {buf : Buf}
    {malloc : Nat → Bool} {wfile wf : WaveFile}
    (h : Reads fopen buf malloc wfile true wf) (loop : Int) :
    Safe wf loop ↔ LastFrameFits wf loop :=
  ⟨lastFrameFits_of_safe (format_of_reads h),
    safe_of_lastFrameFits (format_of_reads h)⟩

/-- A one-channel file with samples of so many bits. -/
def monoFile (bits : UInt8) (data : List UInt8) : List UInt8 :=
  [0x52, 0x49, 0x46, 0x46, 38, 0, 0, 0, 0x57, 0x41, 0x56, 0x45,
    0x66, 0x6d, 0x74, 0x20, 16, 0, 0, 0,
    1, 0, 1, 0, 0x44, 0xac, 0, 0, 0x44, 0xac, 0, 0, 1, 0, bits, 0,
    0x64, 0x61, 0x74, 0x61, UInt8.ofNat data.length, 0, 0, 0] ++ data

/-- A file with one sixteen-bit sample is safe, also when it loops. -/
theorem sixteenBit_safe :
    Safe ⟨some "a.wav", [7, 0], 2, 44100, 1, 16⟩ 1 :=
  have hreads : Reads (some (monoFile 16 [7, 0])) (fun _ => 0) (fun _ => true)
      freshWave true ⟨some "a.wav", [7, 0], 2, 44100, 1, 16⟩ :=
    ⟨2, by decide⟩
  (safe_iff hreads 1).2 (by decide)

/-- A file with two eight-bit samples is not: the second one is read as the
low byte of a sixteen-bit sample that ends behind the data. -/
theorem eightBit_not_safe :
    ¬ ∀ (fopen : Option (List UInt8)) (buf : Buf) (malloc : Nat → Bool)
      (wfile wf : WaveFile), Reads fopen buf malloc wfile true wf →
        0 ≤ wf.wavLen → ∀ loop, Safe wf loop := by
  intro hall
  have hsafe := hall (some (monoFile 8 [7, 9])) (fun _ => 0) (fun _ => true)
    freshWave ⟨some "a.wav", [7, 9], 2, 44100, 1, 8⟩ ⟨2, by decide⟩
    (by decide) 0
  exact absurd (lastFrameFits_of_safe ⟨by decide, by decide⟩ hsafe)
    (by decide)

end Bucktoot.Ports.MixerSafety
