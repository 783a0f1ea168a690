import Mathlib.Data.Rat.Floor
import Bucktoot.Ports.MixerOutput
import Bucktoot.Ports.MixerSum
import Bucktoot.Ports.VoiceStart

/-!
# One-shot voices give their slots back

A voice that does not loop is ended when it has left its data, so at a speed
that is not zero it is ended in time, however the output is cut into buffers.
A voice without a frame size is not: `mix_sample` returns in front of the
check, and the voice keeps its slot for ever.

A voice is followed on its own, through `heardIn`; `EndsInTime.slot_free` says
what this means for the slots of the list.
-/

namespace Bucktoot.Ports.VoiceEnds

open Bucktoot.Ports.Mixer
open Bucktoot.Ports.MixerSafety
open Bucktoot.Ports.ReadWave
open Bucktoot.Ports.VoicePool
open Bucktoot.Ports.VoiceStart

/-- How many frames of output a file lasts at a speed, none if it has no data
or no frame size. -/
def lasting (wf : WaveFile) (speed : ℚ) : Nat :=
  if 0 < fileFrame wf then
    ⌈(wf.wavLen : ℚ) / (fileFrame wf : ℚ) / |speed|⌉₊
  else 0

/-- Callbacks at one speed, each with a buffer of at least one frame, that make
`total` frames of output together. -/
inductive Outputs (speed : ℚ) : List (ℚ × List UInt8) → Nat → Prop where
  | nil : Outputs speed [] 0
  | cons {dst : List UInt8} {n total : Nat} {rest : List (ℚ × List UInt8)} :
      dst.length = 4 * n → 0 < n → Outputs speed rest total →
      Outputs speed ((speed, dst) :: rest) (n + total)

/-- A one-shot voice of the file, heard at this speed from the start, has ended
when it has lasted as long as it has to. -/
def EndsInTime (wf : WaveFile) (speed : ℚ) : Prop :=
  ∀ ws : WaveSample ℚ, startVoice (stereo speed) wf 0 = some ws →
    ∀ (callbacks : List (ℚ × List UInt8)) (total : Nat),
      Outputs speed callbacks total → lasting wf speed + 1 ≤ total →
      (heardIn callbacks { ws with play := 1 }).play = 0

/-! ## The slots -/

/-- Callbacks with buffers of so many frames. -/
def audioCallbacks (w : World ℚ) (frames : List Nat) : World ℚ :=
  frames.foldl (fun w n => audioCallback w (4 * n)) w

/-- The buffers of these callbacks, cleared. -/
def buffers (speed : ℚ) (frames : List Nat) : List (ℚ × List UInt8) :=
  frames.map (fun n => (speed, List.replicate (4 * n) 0))

theorem outputs_buffers (speed : ℚ) {frames : List Nat}
    (hpos : ∀ n ∈ frames, 0 < n) :
    Outputs speed (buffers speed frames) frames.sum := by
  induction frames with
  | nil => exact .nil
  | cons n frames ih =>
      obtain ⟨hn, hrest⟩ := List.forall_mem_cons.1 hpos
      exact .cons List.length_replicate hn (ih hrest)

/-- Every slot goes through the callbacks as if it were alone. -/
theorem audioCallbacks_list {w : World ℚ} {speed : ℚ}
    (hg : w.globals = stereo speed) (frames : List Nat) :
    (audioCallbacks w frames).list =
      w.list.map (heardIn (buffers speed frames)) := by
  induction frames generalizing w with
  | nil => exact (List.map_id w.list).symm
  | cons n frames ih =>
      have hcallback : (audioCallback w (4 * n)).list =
          w.list.map (movedOn (stereo speed) n) := by
        rw [audioCallback, hg]
        exact (mixList_spec (g := stereo speed) rfl n w.list _
          List.length_replicate).2
      rw [audioCallbacks, List.foldl_cons]
      show (audioCallbacks _ frames).list = _
      rw [ih (w := audioCallback w (4 * n)) hg, hcallback, List.map_map]
      rfl

/-- The slot of a one-shot voice is free again in time. -/
theorem EndsInTime.slot_free {wf : WaveFile} {speed : ℚ} {ws : WaveSample ℚ}
    {w : World ℚ} {frames : List Nat} {j : Nat} (h : EndsInTime wf speed)
    (hws : startVoice (stereo speed) wf 0 = some ws)
    (hg : w.globals = stereo speed)
    (hslot : w.list[j]? = some { ws with play := 1 })
    (hpos : ∀ n ∈ frames, 0 < n) (htotal : lasting wf speed + 1 ≤ frames.sum) :
    ∃ s, (audioCallbacks w frames).list[j]? = some s ∧ s.play = 0 := by
  refine ⟨heardIn (buffers speed frames) { ws with play := 1 }, ?_, ?_⟩
  · rw [audioCallbacks_list hg, List.getElem?_map, hslot]
    rfl
  · exact h ws hws _ _ (outputs_buffers speed hpos) htotal

/-! ## A voice that is ended stays ended -/

theorem heardIn_of_ended {callbacks : List (ℚ × List UInt8)}
    {s : WaveSample ℚ} (h : s.play = 0) : heardIn callbacks s = s := by
  induction callbacks with
  | nil => rfl
  | cons c rest ih =>
      rw [heardIn, if_neg (not_not.2 h)]
      exact ih

theorem after_of_ended (g : Globals ℚ) (k : Nat) {s : WaveSample ℚ}
    (h : s.play = 0) : after g k s = s :=
  settle_iterate_of_ended _ _ _ k h

/-- The voice after all callbacks. -/
theorem heardIn_eq_after {s : WaveSample ℚ} (h : Sound s)
    (hplay : s.play ≠ 0) {speed : ℚ} {callbacks : List (ℚ × List UInt8)}
    {total : Nat} (hout : Outputs speed callbacks total)
    (hne : callbacks ≠ []) :
    heardIn callbacks s = after (stereo speed) total (entry s) := by
  induction hout generalizing s with
  | nil => exact absurd rfl hne
  | @cons dst n total rest hdst _ hrest ih =>
      have hvoice : (mixSample (stereo speed) dst s).sample =
          after (stereo speed) n (entry s) := by
        rw [(mixSample_mixed (g := stereo speed) rfl hdst s).sample,
          h.voiceRun_voice]
      rw [heardIn, if_pos hplay, hvoice, after_add]
      by_cases hend : (after (stereo speed) n (entry s)).play = 0
      · rw [heardIn_of_ended hend, after_of_ended _ _ hend]
      · have hc := (entry_continues s).trans
          (after_continues (stereo speed) n (entry s))
        by_cases hnil : rest = []
        · subst hnil
          cases hrest
          rfl
        · rw [ih (h.continues hc) hend hnil, h.entry_after]

/-! ## The end of the data -/

/-- Behind the time it lasts a voice is outside of its data. -/
theorem not_insideTo {wf : WaveFile} {s : WaveSample ℚ} {speed : ℚ}
    (h : OfRequest wf 0 s) (hsize : 0 < fileFrame wf) (hspeed : speed ≠ 0)
    (hforward : 0 < speed → s.currentFrame = 0)
    (hreverse : speed < 0 → s.currentFrame ≤
      (wf.wavLen : ℚ) / (fileFrame wf : ℚ))
    {k : Nat} (hk : lasting wf speed + 1 ≤ k) :
    ¬ InsideTo (stereo speed) s k := by
  have hcount := frameCount_of_request h
  have habs : 0 < |speed| := abs_pos.2 hspeed
  have hlast : (wf.wavLen : ℚ) / (fileFrame wf : ℚ) ≤
      lasting wf speed * |speed| := by
    rw [← div_le_iff₀ habs, lasting, if_pos hsize]
    exact Nat.le_ceil _
  have hkq : (lasting wf speed : ℚ) + 1 ≤ k := by exact_mod_cast hk
  have hfar : (wf.wavLen : ℚ) / (fileFrame wf : ℚ) < k * |speed| := by
    have hmul := mul_le_mul_of_nonneg_right hkq habs.le
    linarith
  intro hin
  obtain ⟨h0, hlt⟩ := hin k (Nat.le_refl k)
  rw [linePosition] at h0 hlt
  change 0 ≤ s.currentFrame + k * speed at h0
  change s.currentFrame + k * speed < frameCount s at hlt
  rcases lt_or_gt_of_ne hspeed with hneg | hpos
  · have := hreverse hneg
    rw [abs_of_neg hneg] at hfar
    linarith
  · rw [hforward hpos, hcount] at hlt
    rw [abs_of_pos hpos] at hfar
    linarith

/-- Where `play_index` puts a voice, as far as its end is concerned. -/
theorem startVoice_le {wf : WaveFile} {speed : ℚ} {ws : WaveSample ℚ}
    (hsize : 0 < fileFrame wf) (hneg : speed < 0)
    (h : startVoice (stereo speed) wf 0 = some ws) (hlen : 0 < wf.wavLen) :
    ws.currentFrame ≤ (wf.wavLen : ℚ) / (fileFrame wf : ℚ) := by
  have hwhole : wholeFrames wf * fileFrame wf ≤ wf.wavLen :=
    Int.ediv_mul_le wf.wavLen hsize.ne'
  have hlast : (wholeFrames wf - 1) * fileFrame wf ≤ wf.wavLen := by
    rw [Int.sub_mul]
    omega
  rw [currentFrame_of_reverse (g := stereo speed) hneg hsize hlen.le h,
    le_div_iff₀ (by exact_mod_cast hsize)]
  exact_mod_cast hlast

/-- A file with a frame size. -/
theorem endsInTime_of_frame {wf : WaveFile} {speed : ℚ} (hspeed : speed ≠ 0)
    (hsize : 0 < fileFrame wf) : EndsInTime wf speed := by
  intro ws hws callbacks total hout htotal
  have hstored := (startVoice_ofRequest hws).1.stored
  have hplay : ({ ws with play := 1 } : WaveSample ℚ).play ≠ 0 :=
    Int.one_ne_zero
  have hne : callbacks ≠ [] := by
    rintro rfl
    cases hout
    omega
  by_cases hlen : 0 < wf.wavLen
  · have hsound := sound_of_request hstored hsize hlen
    rw [heardIn_eq_after hsound hplay hout hne]
    refine (hsound.after_of_oneShot hplay hstored.doLoop _ _).2 ?_
    refine not_insideTo hstored hsize hspeed ?_ ?_ htotal
    · intro hpos
      show ws.currentFrame = 0
      exact currentFrame_of_forward (g := stereo speed) hpos.le hws
    · intro hneg
      show ws.currentFrame ≤ _
      exact startVoice_le hsize hneg hws hlen
  · -- no data: the check in front of the first buffer ends the voice
    obtain ⟨c, rest, rfl⟩ := List.exists_cons_of_ne_nil hne
    have hend := entry_of_noData hstored hsize (not_lt.1 hlen)
    have hsample := mixSample_of_request_noData hstored hsize (not_lt.1 hlen)
      (stereo c.1) c.2
    rw [heardIn, if_pos hplay, hsample, heardIn_of_ended hend]
    exact hend

/-- A voice without a frame size is left as it is. -/
theorem heardIn_of_noFrame {s : WaveSample ℚ} (h : frameSize s ≤ 0)
    (callbacks : List (ℚ × List UInt8)) : heardIn callbacks s = s := by
  induction callbacks with
  | nil => rfl
  | cons c rest ih =>
      rw [heardIn, mixSample_of_noFrame h, ite_self]
      exact ih

/-- **Which voices end in time.**  Those of a file with a frame size do; of the
other files only those do whose voices are never stored, because `play_index`
divides by zero first. -/
theorem endsInTime_iff {fopen : Option (List UInt8)} {buf : Buf}
    {malloc : Nat → Bool} {wfile wf : WaveFile}
    (h : Reads fopen buf malloc wfile true wf) (speed : ℚ) (hspeed : speed ≠ 0) :
    EndsInTime wf speed ↔ 0 < fileFrame wf ∨ DividesByZero speed wf := by
  have hformat := format_of_reads h
  constructor
  · intro hends
    by_contra hnot
    rw [not_or] at hnot
    obtain ⟨ws, hws⟩ :=
      exists_startVoice (g := stereo speed) hformat hnot.2 0
    have hstored := (startVoice_ofRequest hws).1.stored
    have hzero : lasting wf speed = 0 := if_neg hnot.1
    have hend := hends ws hws [(speed, silence)] 1
      (.cons rfl Nat.one_pos .nil) (by rw [hzero])
    rw [heardIn_of_noFrame (by
      rw [frameSize_of_request hstored]
      exact not_lt.1 hnot.1)] at hend
    exact Int.one_ne_zero hend
  · rintro (hsize | hzero)
    · exact endsInTime_of_frame hspeed hsize
    · intro ws hws
      rw [(startVoice_eq_none_iff hformat).2 hzero] at hws
      cases hws

/-- A file with one sixteen-bit sample ends in time at half speed; one with
samples of four bits does not. -/
theorem endsInTime_sixteenBit :
    EndsInTime ⟨some "a.wav", [7, 0], 2, 44100, 1, 16⟩ (1 / 2) ∧
      ¬ EndsInTime ⟨some "a.wav", [7, 0], 2, 44100, 1, 4⟩ (1 / 2) := by
  have hreads : Reads (some (monoFile 16 [7, 0])) (fun _ => 0) (fun _ => true)
      freshWave true ⟨some "a.wav", [7, 0], 2, 44100, 1, 16⟩ :=
    ⟨2, by decide⟩
  have hreads' : Reads (some (monoFile 4 [7, 0])) (fun _ => 0) (fun _ => true)
      freshWave true ⟨some "a.wav", [7, 0], 2, 44100, 1, 4⟩ :=
    ⟨2, by decide⟩
  refine ⟨(endsInTime_iff hreads (1 / 2) (by norm_num)).2
    (.inl (by decide)), fun hends => ?_⟩
  rcases (endsInTime_iff hreads' (1 / 2) (by norm_num)).1 hends with
    hsize | hzero
  · exact absurd hsize (by decide)
  · exact absurd hzero.bits (by decide)

/-- A file of four-bit samples is read, and a voice of it never ends. -/
theorem not_endsInTime :
    ¬ ∀ (fopen : Option (List UInt8)) (buf : Buf) (malloc : Nat → Bool)
      (wfile wf : WaveFile), Reads fopen buf malloc wfile true wf →
      ∀ speed : ℚ, speed ≠ 0 → EndsInTime wf speed := by
  intro h
  have hends := h (some (monoFile 4 [7, 0])) (fun _ => 0) (fun _ => true)
    freshWave ⟨some "a.wav", [7, 0], 2, 44100, 1, 4⟩ ⟨2, by decide⟩ 1
    one_ne_zero
  obtain ⟨ws, hws, -⟩ := startVoice_forward (g := stereo (1 : ℚ))
    (by rw [Int.cast_zero]; exact not_lt.2 zero_le_one)
    ⟨some "a.wav", [7, 0], 2, 44100, 1, 4⟩ 0
  have hstored := (startVoice_ofRequest hws).1.stored
  have hend := hends ws hws [(1, silence)] 1 (.cons rfl Nat.one_pos .nil)
    (Nat.le_refl 1)
  rw [heardIn_of_noFrame (by rw [frameSize_of_request hstored]; decide)] at hend
  exact Int.one_ne_zero hend

end Bucktoot.Ports.VoiceEnds
