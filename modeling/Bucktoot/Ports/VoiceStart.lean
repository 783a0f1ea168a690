import Bucktoot.Ports.MixerSafety

/-!
# Where `play_index` starts a voice

In reverse `play_index` puts a voice on the last whole frame of its data, and
divides by the frame size to find it.  The guard in front of the division asks
for bytes in a sample only, so a file without channels divides by zero.
`startsInside_iff` says that this is the only thing that can go wrong.
-/

namespace Bucktoot.Ports.VoiceStart

open Bucktoot.Verified.FirstSlot
open Bucktoot.Ports.Mixer
open Bucktoot.Ports.MixerSafety
open Bucktoot.Ports.ReadWave
open Bucktoot.Ports.VoicePool

/-- `play_index` divides by the frame size of a file without channels. -/
structure DividesByZero (speed : ℚ) (wf : WaveFile) : Prop where
  reverse : speed < 0
  bits : 8 ≤ wf.bits
  channels : wf.channels = 0

/-- The whole frames of a file. -/
def wholeFrames (wf : WaveFile) : Int := wf.wavLen / fileFrame wf

/-- The frame a voice of this file is to start on. -/
structure StartFrame (speed : ℚ) (wf : WaveFile) (s : WaveSample ℚ) : Prop where
  nonneg : 0 ≤ s.currentFrame
  inside : s.currentFrame < wholeFrames wf
  forward : 0 ≤ speed → s.currentFrame = 0
  reverse : speed < 0 → s.currentFrame = (wholeFrames wf - 1 : Int)

/-- `play_index` does not divide by zero, and the voice it stores in the first
free slot starts inside of its data if that has a whole frame. -/
structure StartsInside (w : World ℚ) (i loop : Int) : Prop where
  defined : playIndex w i loop ≠ none
  start : ∀ wf w' j s, w.fileAt i = some wf → playIndex w i loop = some w' →
    IsFirst (fun tmp : WaveSample ℚ => tmp.play = 0) w.list j →
    w'.list[j]? = some s →
    0 < fileFrame wf → fileFrame wf ≤ wf.wavLen →
    StartFrame w.globals.speed wf s

section

variable {g : Globals ℚ} {wf : WaveFile} {loop : Int} {ws : WaveSample ℚ}

theorem startVoice_eq_none_iff (hformat : 0 ≤ wf.bits ∧ 0 ≤ wf.channels) :
    startVoice g wf loop = none ↔ DividesByZero g.speed wf := by
  have hbytes : wf.bits / 8 ≠ 0 ↔ 8 ≤ wf.bits := by omega
  rw [startVoice]
  dsimp only
  rw [Int.cast_zero]
  split
  · rename_i hback
    have hbits := hbytes.1 hback.2
    have hzero : wf.bits / 8 * wf.channels = 0 ↔ wf.channels = 0 := by
      rw [Int.mul_eq_zero]
      exact or_iff_right hback.2
    split
    · rename_i hsize
      exact iff_of_true rfl ⟨hback.1, hbits, hzero.1 hsize⟩
    · rename_i hsize
      exact iff_of_false (Option.some_ne_none _)
        (fun h => hsize (hzero.2 h.channels))
  · rename_i hgo
    exact iff_of_false (Option.some_ne_none _)
      (fun h => hgo ⟨h.reverse, hbytes.2 h.bits⟩)

theorem exists_startVoice (hformat : 0 ≤ wf.bits ∧ 0 ≤ wf.channels)
    (h : ¬ DividesByZero g.speed wf) (loop : Int) :
    ∃ ws, startVoice g wf loop = some ws :=
  Option.ne_none_iff_exists'.1
    (fun hnone => h ((startVoice_eq_none_iff hformat).1 hnone))

/-- A voice that is not started in reverse. -/
theorem currentFrame_of_forward (hspeed : 0 ≤ g.speed)
    (h : startVoice g wf loop = some ws) : ws.currentFrame = 0 := by
  have hforward : ¬ g.speed < ((0 : Int) : ℚ) := by
    rw [Int.cast_zero]
    exact not_lt.2 hspeed
  obtain ⟨ws', hws', hfirst⟩ := startVoice_forward hforward wf loop
  obtain rfl : ws' = ws := Option.some.inj (hws'.symm.trans h)
  exact hfirst.trans Int.cast_zero

/-- A voice started in reverse. -/
theorem currentFrame_of_reverse (hspeed : g.speed < 0)
    (hsize : 0 < fileFrame wf) (hlen : 0 ≤ wf.wavLen)
    (h : startVoice g wf loop = some ws) :
    ws.currentFrame = (wholeFrames wf - 1 : Int) := by
  have hbytes : wf.bits / 8 ≠ 0 := by
    intro hzero
    rw [fileFrame, hzero, Int.zero_mul] at hsize
    exact Int.lt_irrefl 0 hsize
  rw [startVoice] at h
  dsimp only at h
  rw [Int.cast_zero, if_pos ⟨hspeed, hbytes⟩,
    if_neg (show wf.bits / 8 * wf.channels ≠ 0 from hsize.ne'),
    Int.tdiv_eq_ediv_of_nonneg hlen] at h
  obtain rfl := Option.some.inj h
  exact (Int.cast_sub _ _).symm

/-- A voice of a file with at least one whole frame. -/
theorem startFrame_of_startVoice (hsize : 0 < fileFrame wf)
    (hlen : fileFrame wf ≤ wf.wavLen) (h : startVoice g wf loop = some ws) :
    StartFrame g.speed wf ws := by
  have hframes : 1 ≤ wholeFrames wf := by
    rw [wholeFrames, Int.le_ediv_iff_mul_le hsize, Int.one_mul]
    exact hlen
  rcases lt_or_ge g.speed 0 with hspeed | hspeed
  · have hlast := currentFrame_of_reverse hspeed hsize (by omega) h
    refine ⟨?_, ?_, fun h0 => absurd hspeed (not_lt.2 h0), fun _ => hlast⟩
    · rw [hlast]
      exact_mod_cast (show 0 ≤ wholeFrames wf - 1 by omega)
    · rw [hlast]
      exact_mod_cast (show wholeFrames wf - 1 < wholeFrames wf by omega)
  · have hfirst := currentFrame_of_forward hspeed h
    refine ⟨hfirst.ge, ?_, fun _ => hfirst, fun h0 => absurd h0 (not_lt.2 hspeed)⟩
    rw [hfirst]
    exact_mod_cast (show 0 < wholeFrames wf by omega)

variable {w : World ℚ} {i : Int}

/-- With a file at the index, everything depends on the voice. -/
theorem playIndex_of_fileAt (h : w.fileAt i = some wf) (loop : Int) :
    playIndex w i loop = (startVoice w.globals wf loop).map
      (fun ws => { w with list := addSample w.list ws }) := by
  rw [playIndex, h]
  dsimp only
  cases startVoice w.globals wf loop <;> rfl

/-- What the first free slot holds behind `add_sample`. -/
theorem addSample_slot {list : List (WaveSample ℚ)} {j : Nat}
    {s : WaveSample ℚ} (hfirst : IsFirst (fun tmp => tmp.play = 0) list j)
    (hs : (addSample list ws)[j]? = some s) : s = { ws with play := 1 } := by
  rw [addSample, fillFirst_of_isFirst _ hfirst,
    List.getElem?_set_self hfirst.lt_length] at hs
  exact (Option.some.inj hs).symm

end

/-- **Where a voice starts.**  For files that `read_wave_file` has returned,
`play_index` starts every voice inside of its data, except that in reverse it
divides by zero for a file with whole bytes to a sample and no channel. -/
theorem startsInside_iff (w : World ℚ) (i loop : Int)
    (hfiles : ∀ wf, w.fileAt i = some wf →
      ∃ fopen buf malloc wfile, Reads fopen buf malloc wfile true wf) :
    StartsInside w i loop ↔
      ∀ wf, w.fileAt i = some wf → ¬ DividesByZero w.globals.speed wf := by
  have hformat : ∀ wf, w.fileAt i = some wf → 0 ≤ wf.bits ∧ 0 ≤ wf.channels := by
    intro wf hwf
    obtain ⟨_, _, _, _, hreads⟩ := hfiles wf hwf
    exact format_of_reads hreads
  constructor
  · intro h wf hwf hzero
    apply h.defined
    rw [playIndex_of_fileAt hwf,
      (startVoice_eq_none_iff (hformat wf hwf)).2 hzero]
    rfl
  · intro h
    constructor
    case defined =>
      cases hwf : w.fileAt i with
      | none =>
          rw [playIndex, hwf]
          exact Option.some_ne_none w
      | some wf =>
          obtain ⟨ws, hws⟩ := exists_startVoice (hformat wf hwf) (h wf hwf) loop
          rw [playIndex_of_fileAt hwf, hws]
          exact Option.some_ne_none _
    case start =>
      intro wf w' j s hwf hplay hfirst hs hsize hlen
      rw [playIndex_of_fileAt hwf] at hplay
      obtain ⟨ws, hws, rfl⟩ := Option.map_eq_some_iff.1 hplay
      obtain ⟨h0, hin, hforward, hreverse⟩ :=
        startFrame_of_startVoice hsize hlen hws
      rw [addSample_slot hfirst hs]
      exact ⟨h0, hin, hforward, hreverse⟩

/-- A program that plays in reverse and has loaded this file everywhere. -/
def reverseWorld (wf : WaveFile) : World ℚ :=
  World.init (stereo (-1)) (fun _ => wf)

/-- In reverse, a file with one sixteen-bit sample is started at it. -/
theorem startsInside_sixteenBit :
    StartsInside (reverseWorld ⟨some "a.wav", [7, 0], 2, 44100, 1, 16⟩)
      0 0 := by
  refine (startsInside_iff _ 0 0 ?_).2 ?_
  · intro wf hwf
    obtain rfl := Option.some.inj hwf
    exact ⟨some (monoFile 16 [7, 0]), fun _ => 0, fun _ => true, freshWave, 2,
      by decide⟩
  · intro wf hwf hzero
    obtain rfl := Option.some.inj hwf
    exact absurd hzero.channels (by decide)

/-- A sixteen-bit file without channels. -/
def noChannelFile : List UInt8 :=
  [0x52, 0x49, 0x46, 0x46, 38, 0, 0, 0, 0x57, 0x41, 0x56, 0x45,
    0x66, 0x6d, 0x74, 0x20, 16, 0, 0, 0,
    1, 0, 0, 0, 0x44, 0xac, 0, 0, 0x44, 0xac, 0, 0, 1, 0, 16, 0,
    0x64, 0x61, 0x74, 0x61, 2, 0, 0, 0, 7, 0]

/-- It is read, and playing it in reverse divides by zero. -/
theorem not_startsInside :
    ¬ ∀ (w : World ℚ) (i loop : Int),
      (∀ wf, w.fileAt i = some wf → 0 ≤ wf.wavLen ∧
        ∃ fopen buf malloc wfile, Reads fopen buf malloc wfile true wf) →
      StartsInside w i loop := by
  intro h
  refine (h (reverseWorld ⟨some "a.wav", [7, 0], 2, 44100, 0, 16⟩) 0 0
    ?_).defined ?_
  · intro wf hwf
    obtain rfl := Option.some.inj hwf
    exact ⟨by decide, some noChannelFile, fun _ => 0, fun _ => true, freshWave,
      2, by decide⟩
  · decide

end Bucktoot.Ports.VoiceStart
