import Bucktoot.Ports.ReadWaveFormat
import Bucktoot.Ports.MixerOutput
import Bucktoot.Ports.VoiceEnds

/-!
# From the file to the device

A RIFF file is read, `play_index` starts a voice for it in a pool that is
silent, and the audio callback is called with one buffer after the other.

* `output` — what the callbacks write, one buffer behind the other;
* `file_is_heard` — at speed `1` it is the payload of the file frame by frame,
  at speed `-1` the payload from the end, and a voice that loops goes round;
* `file_is_heard_exactly` — for stereo at speed `1` the bytes are those of the
  payload.
-/

namespace Bucktoot.Ports.Playback

open Bucktoot.Verified.LittleEndian
open Bucktoot.Verified.FirstSlot
open Bucktoot.Ports.Mixer
open Bucktoot.Ports.MixerSafety
open Bucktoot.Ports.VoicePool
open Bucktoot.Ports.VoiceStart
open Bucktoot.Ports.ReadWave (Buf WaveFile RiffFile Reads)

/-- What the callbacks with buffers of so many frames write. -/
def output : List Nat → World ℚ → List UInt8
  | [], _ => []
  | n :: ns, w =>
      (mixSamples w.globals (4 * n) w.list).1 ++
        output ns (audioCallback w (4 * n))

/-- No slot plays. -/
def Idle (w : World ℚ) : Prop := w.list ≠ [] ∧ ∀ s ∈ w.list, s.play = 0

/-- The frame of the data that is heard at frame `k` of the output, where
there are `n` of them. -/
def heardFrame (speed : ℚ) (loop : Int) (n k : Nat) : Option Nat :=
  let j := if loop ≠ 0 then k % n else k
  if j < n then some (if speed < 0 then n - 1 - j else j) else none

/-! ## One voice in a silent pool -/

section Alone

variable {g : Globals ℚ}

theorem mixList_idle {list : List (WaveSample ℚ)}
    (hidle : ∀ s ∈ list, s.play = 0) (dst : List UInt8) :
    mixList g dst list = (dst, list) := by
  induction list with
  | nil => rfl
  | cons s rest ih =>
      obtain ⟨hs, hrest⟩ := List.forall_mem_cons.1 hidle
      rw [mixList, if_neg (fun hplay => hplay hs), ih hrest]

/-- A voice that has ended stays silent, also where `mix_sample` is called for
it. -/
theorem mixSample_of_stopped {s : WaveSample ℚ} (hs : s.play = 0)
    (dst : List UInt8) :
    (mixSample g dst s).dst = dst ∧ (mixSample g dst s).sample.play = 0 := by
  by_cases hsize : s.bytes * s.channels ≤ 0
  · rw [mixSample_of_noFrame hsize]
    exact ⟨rfl, hs⟩
  · have hend : (checkLoop s ((s.bytes * s.channels : Int) : ℚ)).play = 0 := by
      have hc := checkLoop_continues s ((s.bytes * s.channels : Int) : ℚ)
      exact hc.play.elim (fun h => h.trans hs) id
    rw [mixSample_of_ended (Int.not_le.1 hsize) hend]
    exact ⟨rfl, hend⟩

/-- The pool with one voice in front of silent slots is heard as this voice,
which may also be taken as any other one once it has ended. -/
theorem output_alone {w : World ℚ} {s t : WaveSample ℚ}
    {rest : List (WaveSample ℚ)} (hg : w.globals = g)
    (hlist : w.list = s :: rest) (hrest : ∀ u ∈ rest, u.play = 0)
    (hst : s = t ∨ s.play = 0 ∧ t.play = 0) (ns : List Nat) :
    output ns w = (mixCalls g ns t).1 := by
  induction ns generalizing w s t with
  | nil => rfl
  | cons n ns ih =>
      have hmixed : ∃ s', mixSamples g (4 * n) w.list =
          ((mixSample g (List.replicate (4 * n) 0) t).dst, s' :: rest) ∧
          (s' = (mixSample g (List.replicate (4 * n) 0) t).sample ∨
            s'.play = 0 ∧
            (mixSample g (List.replicate (4 * n) 0) t).sample.play = 0) := by
        rw [mixSamples, hlist, mixList]
        by_cases hplay : s.play = 0
        · have ht : t.play = 0 := by
            obtain heq | ⟨-, ht⟩ := hst
            · rw [← heq]
              exact hplay
            · exact ht
          obtain ⟨hdst, hend⟩ := mixSample_of_stopped (g := g) ht
            (List.replicate (4 * n) 0)
          rw [if_neg (fun h => h hplay), mixList_idle hrest, hdst]
          exact ⟨s, rfl, .inr ⟨hplay, hend⟩⟩
        · obtain rfl : s = t := hst.resolve_right (fun h => hplay h.1)
          rw [if_pos hplay]
          dsimp only
          rw [mixList_idle hrest]
          exact ⟨_, rfl, .inl rfl⟩
      obtain ⟨s', heq, hs'⟩ := hmixed
      have hnext : (audioCallback w (4 * n)).list = s' :: rest := by
        rw [audioCallback, hg, heq]
      rw [output, mixCalls, hg, heq,
        ih (w := audioCallback w (4 * n)) hg hnext hs']

end Alone

/-! ## The positions at speed `1` and `-1` -/

section Positions

/-- A voice with `n` frames of sixteen-bit data behind `play_index`. -/
structure Started (wf : WaveFile) (speed : ℚ) (loop : Int) (n : Nat)
    (s : WaveSample ℚ) : Prop where
  request : OfRequest wf loop s
  play : s.play = 1
  bytes : s.bytes = 2
  channels : 1 ≤ s.channels
  frames : 1 ≤ n
  dataLen : s.dataLen = 2 * s.channels * n
  start : s.currentFrame = if speed < 0 then ((n - 1 : Nat) : ℚ) else 0

variable {wf : WaveFile} {speed : ℚ} {loop : Int} {n : Nat} {s : WaveSample ℚ}

theorem Started.sound (h : Started wf speed loop n s) : Sound s := by
  have hsize : frameSize s = 2 * s.channels := by rw [frameSize, h.bytes]
  have hchannels := h.channels
  have hframes := h.frames
  have hdata : 0 < s.dataLen := by
    rw [h.dataLen]
    exact Int.mul_pos (by omega) (by omega)
  refine ⟨by omega, hdata, fun _ => ?_⟩
  rw [stopByte, h.request.loopStart, h.request.loopEnd]
  exact ⟨Int.le_refl 0, by simpa using hdata, by simp⟩

theorem Started.frameCount (h : Started wf speed loop n s) :
    frameCount s = n := by
  have hsize : (s.dataLen : ℚ) = frameSize s * (n : ℚ) := by
    rw [h.dataLen, frameSize, h.bytes]
    push_cast
    ring
  rw [Mixer.frameCount, hsize, mul_div_cancel_left₀ _ h.sound.size_pos.ne']

/-- The frame of the data at frame `k` of the output, for a looping voice. -/
theorem Started.loopPosition (h : Started wf speed loop n s)
    {g : Globals ℚ} (hg : g.speed = speed) (hspeed : speed = 1 ∨ speed = -1)
    (k : Nat) :
    loopPosition g s k =
      ((if speed < 0 then n - 1 - k % n else k % n : Nat) : ℚ) := by
  have hn := h.frames
  have hwrapped (p : ℚ) : wrapped s p =
      if p ≥ n then 0 else if p < 0 then max ((n : ℚ) - 1) 0 else p := by
    have hcount := h.frameCount
    have hstop : stopByte s = s.dataLen := by
      rw [stopByte, h.request.loopEnd]
      exact if_neg (fun hne => hne rfl)
    have hsize : (frameSize s : ℚ) = 2 * s.channels := by
      rw [frameSize, h.bytes]
      push_cast
      rfl
    rw [Mixer.frameCount, hsize] at hcount
    rw [wrapped, h.request.loopStart, hstop]
    rw [hcount, Int.cast_zero, zero_div]
  have hlast : max ((n : ℚ) - 1) 0 = ((n - 1 : Nat) : ℚ) := by
    rw [Nat.cast_sub hn, Nat.cast_one]
    exact max_eq_left (by linarith [show (1 : ℚ) ≤ n by exact_mod_cast hn])
  have hinside {j : Nat} (hj : j < n) : wrapped s (j : ℚ) = j := by
    rw [hwrapped, if_neg (not_le.2 (by exact_mod_cast hj)),
      if_neg (not_lt.2 (Nat.cast_nonneg j))]
  have hmod := Nat.mod_lt k hn
  induction k with
  | zero =>
      rw [Mixer.loopPosition, h.start, Nat.zero_mod]
      split
      · exact hinside (by omega)
      · exact_mod_cast hinside hn
  | succ k ih =>
      have hbefore := Nat.mod_lt k hn
      have hsplit : (k + 1) % n = if k % n + 1 = n then 0 else k % n + 1 := by
        rw [← Nat.mod_add_mod]
        split
        · rename_i hround
          rw [hround, Nat.mod_self]
        · exact Nat.mod_eq_of_lt (by omega)
      rw [Mixer.loopPosition, ih hbefore, hg, hsplit]
      obtain rfl | rfl := hspeed
      · rw [if_neg (by norm_num), if_neg (by norm_num), ← Nat.cast_succ]
        split
        · rename_i hround
          rw [hwrapped, if_pos (by exact_mod_cast Nat.le_of_eq hround.symm)]
          rfl
        · exact hinside (by omega)
      · rw [if_pos (by norm_num), if_pos (by norm_num)]
        split
        · rename_i hround
          have hzero : n - 1 - k % n = 0 := by omega
          have hn0 : (0 : ℚ) ≤ n := Nat.cast_nonneg n
          rw [hzero, Nat.cast_zero, hwrapped, if_neg (by linarith),
            if_pos (by norm_num), hlast]
          rfl
        · have hback : ((n - 1 - k % n : Nat) : ℚ) + -1 =
              ((n - 1 - (k % n + 1) : Nat) : ℚ) := by
            rw [show n - 1 - k % n = n - 1 - (k % n + 1) + 1 by omega]
            push_cast
            ring
          rw [hback]
          exact hinside (by omega)

/-- The frame of the data at frame `k` of the output, for a voice that does not
loop. -/
theorem Started.linePosition (h : Started wf speed loop n s)
    {g : Globals ℚ} (hg : g.speed = speed) (hspeed : speed = 1 ∨ speed = -1)
    (k : Nat) :
    linePosition g s k = if speed < 0 then (n : ℚ) - 1 - k else k := by
  rw [Mixer.linePosition, h.start, hg]
  obtain rfl | rfl := hspeed
  · rw [if_neg (by norm_num), if_neg (by norm_num)]
    ring
  · rw [if_pos (by norm_num), if_pos (by norm_num), Nat.cast_sub h.frames]
    push_cast
    ring

theorem Started.insideTo (h : Started wf speed loop n s) {g : Globals ℚ}
    (hg : g.speed = speed) (hspeed : speed = 1 ∨ speed = -1) (k : Nat) :
    InsideTo g s k ↔ k < n := by
  have hn := h.frames
  simp only [InsideTo, h.linePosition hg hspeed, h.frameCount]
  constructor
  · intro hall
    obtain ⟨h0, hlt⟩ := hall k (Nat.le_refl k)
    split at h0
    · have hk : (k : ℚ) + 1 ≤ n := by linarith
      exact_mod_cast hk
    · rename_i hforward
      rw [if_neg hforward] at hlt
      exact_mod_cast hlt
  · intro hk j hj
    have hjn : (j : ℚ) + 1 ≤ n := by exact_mod_cast Nat.lt_of_le_of_lt hj hk
    have hj0 : (0 : ℚ) ≤ j := Nat.cast_nonneg j
    split
    · exact ⟨by linarith, by linarith⟩
    · exact ⟨hj0, by linarith⟩

end Positions

/-! ## The voice of a file -/

section Heard

variable {wf : WaveFile} {speed : ℚ} {loop : Int} {n : Nat} {s : WaveSample ℚ}

/-- The frames of a started voice, whatever the buffers. -/
theorem Started.heard (h : Started wf speed loop n s) {g : Globals ℚ}
    (hg : g.speed = speed) (hdevice : g.bytes * g.channels = 4)
    (hspeed : speed = 1 ∨ speed = -1) (ns : List Nat) {k : Nat}
    (hk : k < ns.sum) :
    frameAt (mixCalls g ns s).1 k =
      match heardFrame speed loop n k with
      | some j => dataFrame s j
      | none => (0, 0) := by
  have hn := h.frames
  have hplay : s.play ≠ 0 := by
    rw [h.play]
    decide
  have hfloor (j : Nat) : ⌊(j : ℚ)⌋ = (j : Int) := Int.floor_natCast j
  rw [heardFrame]
  by_cases hloop : s.doLoop ≠ 0
  · obtain ⟨-, hframes⟩ := h.sound.mixCalls_loop h.bytes h.channels hdevice
      hplay hloop ns
    obtain ⟨-, -, hframe⟩ := hframes k hk
    rw [hframe, h.loopPosition hg hspeed, hfloor]
    rw [h.request.doLoop] at hloop
    rw [if_pos hloop, if_pos (Nat.mod_lt k hn)]
  · obtain ⟨hinside, houtside, -⟩ := h.sound.mixCalls_oneShot h.bytes
      h.channels hdevice hplay (Classical.not_not.1 hloop) ns
    rw [h.request.doLoop] at hloop
    rw [if_neg hloop]
    split
    · rename_i j hj
      split at hj
      · rename_i hkn
        rw [hinside k hk ((h.insideTo hg hspeed k).2 hkn),
          h.linePosition hg hspeed]
        obtain rfl := Option.some.inj hj
        split
        · have hcast : (n : ℚ) - 1 - k = ((n - 1 - k : Nat) : ℚ) := by
            rw [Nat.cast_sub (by omega), Nat.cast_sub hn, Nat.cast_one]
          rw [hcast, hfloor]
        · rw [hfloor]
      · cases hj
    · rename_i hnone
      split at hnone
      · cases hnone
      · rename_i hkn
        exact houtside k hk (fun hin => hkn ((h.insideTo hg hspeed k).1 hin))

/-- `play_index` in a silent pool puts the voice in front of silent slots. -/
theorem exists_started (loop : Int) {w : World ℚ} {i : Int} (hidle : Idle w)
    (hfile : w.fileAt i = some wf) (hbits : wf.bits = 16)
    (hchannels : 1 ≤ wf.channels) (hframes : 1 ≤ n)
    (hlen : wf.wavLen = 2 * wf.channels * n) :
    ∃ w' s rest, playIndex w i loop = some w' ∧ w'.globals = w.globals ∧
      w'.list = s :: rest ∧ (∀ u ∈ rest, u.play = 0) ∧
      Started wf w.globals.speed loop n s := by
  have hbytes : wf.bits / 8 = 2 := by omega
  have hsize : fileFrame wf = 2 * wf.channels := by rw [fileFrame, hbytes]
  have hpos : 0 < fileFrame wf := by omega
  have hwhole : wholeFrames wf = n := by
    rw [wholeFrames, hlen, ← hsize]
    exact Int.mul_ediv_cancel_left _ hpos.ne'
  have hdata : fileFrame wf ≤ wf.wavLen := by
    rw [hlen, ← hsize]
    exact le_mul_of_one_le_right (by omega) (by omega)
  obtain ⟨ws, hws⟩ := exists_startVoice (g := w.globals)
    (show 0 ≤ wf.bits ∧ 0 ≤ wf.channels by omega) (fun hzero => by have := hzero.channels; omega) loop
  obtain ⟨hrequest, hplay⟩ := startVoice_ofRequest hws
  have hstart := startFrame_of_startVoice hpos hdata hws
  cases hlist : w.list with
  | nil => exact absurd hlist hidle.1
  | cons u rest =>
      have hall := hidle.2
      rw [hlist] at hall
      obtain ⟨hu, hrest⟩ := List.forall_mem_cons.1 hall
      refine ⟨{ w with list := addSample w.list ws }, { ws with play := 1 },
        rest, ?_, rfl, ?_, hrest, ?_⟩
      · rw [playIndex_of_fileAt hfile, hws]
        rfl
      · rw [hlist, addSample, fillFirst, if_pos hu]
      · refine ⟨hrequest.stored, rfl, ?_, ?_, hframes, ?_, ?_⟩
        · exact hrequest.bytes.trans hbytes
        · exact hchannels.trans_eq hrequest.channels.symm
        · exact (hrequest.dataLen.trans hlen).trans
            (by rw [hrequest.channels])
        · split
          · rename_i hback
            rw [hstart.reverse hback, hwhole, Nat.cast_sub hframes]
            push_cast
            rfl
          · rename_i hforward
            exact hstart.forward (not_lt.1 hforward)

end Heard

/-! ## The file -/

section File

variable {f : RiffFile} {buf : Buf} {malloc : Nat → Bool} {wfile wf : WaveFile}

/-- What `read_wave_file` leaves behind of an aligned file. -/
theorem contents_of_reads (h : f.Aligned)
    (hread : Reads (some f.bytes) buf malloc wfile true wf) :
    wf = f.contents wfile := by
  have h12 : 12 ≤ f.bytes.length := by
    simp [RiffFile.bytes, f.head_length]
  have hriff := (ReadWave.riffHeader_iff h12 buf).2 ⟨rfl, rfl⟩
  obtain ⟨p, q, hp, hq, hout⟩ := (ReadWave.reads_iff_of_cleanWalk malloc wfile
    h12 hriff h.cleanWalk true wf).1 hread
  obtain rfl := hp.unique h.firstFmt.1
  obtain rfl := hq.unique h.firstData.1
  rw [ReadWave.outcomeAt] at hout
  split at hout
  · rw [(Prod.mk.inj hout).2, f.decoded_eq_contents]
  · cases (Prod.mk.inj hout).1

/-- The two channels of a frame of the data are values of the payload. -/
theorem dataFrame_eq {s : WaveSample ℚ} {channels : Nat}
    (hchannels : s.channels = channels) (hpos : 1 ≤ channels) (j : Nat) :
    dataFrame s j = (valueAt s.data (channels * j),
      valueAt s.data (channels * j + min 1 (channels - 1))) := by
  have hfirst : (2 * s.channels * j : Int) = ((2 * (channels * j) : Nat) : Int) := by
    rw [hchannels]
    push_cast
    ring
  have hsecond : (2 * s.channels * j + 2 * min 1 (s.channels - 1) : Int) =
      ((2 * (channels * j + min 1 (channels - 1)) : Nat) : Int) := by
    rw [hfirst, hchannels]
    omega
  rw [dataFrame, hsecond, hfirst]
  rfl

variable (loop : Int) {w : World ℚ} {i : Int} {speed : ℚ} {n : Nat}

/-- The output behind a request for the file is the data of its voice, frame by
frame. -/
theorem exists_heard (h : f.Aligned) (hbits : f.fmt.bits = 16)
    (hchannels : 1 ≤ f.fmt.channels) (hframes : 1 ≤ n)
    (hlen : f.payload.length = 2 * f.fmt.channels * n)
    (hread : Reads (some f.bytes) buf malloc wfile true wf)
    (hidle : Idle w) (hfile : w.fileAt i = some wf)
    (hdevice : w.globals = stereo speed) (hspeed : speed = 1 ∨ speed = -1) :
    ∃ w' s, playIndex w i loop = some w' ∧ s.data = f.payload ∧
      s.channels = (f.fmt.channels : Int) ∧ ∀ ns : List Nat,
        (output ns w').length = 4 * ns.sum ∧
        ∀ k < ns.sum, frameAt (output ns w') k =
          match heardFrame speed loop n k with
          | some j => dataFrame s j
          | none => (0, 0) := by
  obtain rfl := contents_of_reads h hread
  have hsix : (f.contents wfile).bits = 16 := by
    show (f.fmt.bits : Int) = 16
    omega
  have hone : 1 ≤ (f.contents wfile).channels := by
    show 1 ≤ (f.fmt.channels : Int)
    omega
  have hdata : (f.contents wfile).wavLen =
      2 * (f.contents wfile).channels * n := by
    show (f.payload.length : Int) = 2 * (f.fmt.channels : Int) * n
    rw [hlen]
    push_cast
    rfl
  obtain ⟨w', s, rest, hplay, hglobals, hlist, hrest, hstarted⟩ :=
    exists_started loop hidle hfile hsix hone hframes hdata
  rw [hdevice] at hglobals hstarted
  refine ⟨w', s, hplay, hstarted.request.data, hstarted.request.channels,
    fun ns => ?_⟩
  rw [output_alone hglobals hlist hrest (.inl rfl)]
  exact ⟨mixCalls_length rfl ns s, fun k hk =>
    hstarted.heard rfl rfl hspeed ns hk⟩

/-- **From the file to the device.**  The frames a sixteen-bit file was written
with are heard one after the other, whatever the buffers of the device: once
and then silence, or round and round, and at speed `-1` from the end. -/
theorem file_is_heard (h : f.Aligned) (hbits : f.fmt.bits = 16)
    (hchannels : 1 ≤ f.fmt.channels) (hframes : 1 ≤ n)
    (hlen : f.payload.length = 2 * f.fmt.channels * n)
    (hread : Reads (some f.bytes) buf malloc wfile true wf)
    (hidle : Idle w) (hfile : w.fileAt i = some wf)
    (hdevice : w.globals = stereo speed) (hspeed : speed = 1 ∨ speed = -1) :
    ∃ w', playIndex w i loop = some w' ∧ ∀ ns : List Nat,
      (output ns w').length = 4 * ns.sum ∧
      ∀ k < ns.sum, frameAt (output ns w') k =
        match heardFrame speed loop n k with
        | some j => (valueAt f.payload (f.fmt.channels * j),
            valueAt f.payload
              (f.fmt.channels * j + min 1 (f.fmt.channels - 1)))
        | none => (0, 0) := by
  obtain ⟨w', s, hplay, hdata, hc, hheard⟩ := exists_heard loop h hbits
    hchannels hframes hlen hread hidle hfile hdevice hspeed
  refine ⟨w', hplay, fun ns => ⟨(hheard ns).1, fun k hk => ?_⟩⟩
  rw [(hheard ns).2 k hk]
  cases heardFrame speed loop n k with
  | none => rfl
  | some j =>
      dsimp only
      rw [dataFrame_eq hc hchannels, hdata]

/-- The same value at two places, byte by byte. -/
theorem bytes_of_value {a b : List UInt8} {u v : Nat}
    (h : valueAt a u = valueAt b v) :
    a.getD (2 * u) 0 = b.getD (2 * v) 0 ∧
      a.getD (2 * u + 1) 0 = b.getD (2 * v + 1) 0 := by
  rw [valueAt, valueAt, shortAt_natCast, shortAt_natCast] at h
  exact signed16_word16_inj h

/-- The same frame at two places, byte by byte. -/
theorem bytes_of_frame {a b : List UInt8} {k j : Nat}
    (h : frameAt a k = frameAt b j) {r : Nat} (hr : r < 4) :
    a.getD (4 * k + r) 0 = b.getD (4 * j + r) 0 := by
  obtain ⟨hleft, hright⟩ := Prod.mk.inj h
  have h01 := bytes_of_value hleft
  have h23 := bytes_of_value hright
  rw [show 2 * (2 * k) = 4 * k by omega, show 2 * (2 * j) = 4 * j by omega]
    at h01
  rw [show 2 * (2 * k + 1) = 4 * k + 2 by omega,
    show 2 * (2 * j + 1) = 4 * j + 2 by omega] at h23
  match r, hr with
  | 0, _ => exact h01.1
  | 1, _ => exact h01.2
  | 2, _ => exact h23.1
  | 3, _ => exact h23.2

/-- The bytes of a stereo payload come out of the device as they are in the
file, with zeros behind a voice that has ended. -/
theorem file_is_heard_exactly (h : f.Aligned) (hbits : f.fmt.bits = 16)
    (hchannels : f.fmt.channels = 2) (hframes : 1 ≤ n)
    (hlen : f.payload.length = 4 * n)
    (hread : Reads (some f.bytes) buf malloc wfile true wf)
    (hidle : Idle w) (hfile : w.fileAt i = some wf)
    (hdevice : w.globals = stereo 1) :
    ∃ w', playIndex w i loop = some w' ∧ ∀ ns : List Nat, ∀ p < 4 * ns.sum,
      (output ns w')[p]? = some (f.payload.getD
        (if loop ≠ 0 then p % f.payload.length else p) 0) := by
  obtain ⟨w', s, hplay, hdata, hc, hheard⟩ := exists_heard loop h hbits
    (by omega) hframes (by rw [hlen, hchannels]) hread hidle hfile hdevice
    (.inl rfl)
  have hstereo : ∀ j : Nat, dataFrame s j = frameAt f.payload j := by
    intro j
    rw [dataFrame_eq hc (by omega), hdata, hchannels]
    rfl
  refine ⟨w', hplay, fun ns p hp => ?_⟩
  obtain ⟨hlength, hall⟩ := hheard ns
  have hframe := hall (p / 4) (by omega)
  have hr : p % 4 < 4 := Nat.mod_lt p (by decide)
  have hsplit : 4 * (p / 4) + p % 4 = p := Nat.div_add_mod p 4
  have hget : (output ns w')[p]? = some ((output ns w').getD p 0) := by
    rw [List.getD_eq_getElem?_getD, List.getElem?_eq_getElem (by omega)]
    rfl
  rw [hget, ← hsplit]
  congr 1
  rw [heardFrame, if_neg (show ¬ (1 : ℚ) < 0 by norm_num)] at hframe
  by_cases hloop : loop ≠ 0
  · rw [if_pos hloop, if_pos (Nat.mod_lt _ hframes)] at hframe
    rw [if_pos hloop, hsplit, hlen, Nat.mod_mul, Nat.add_comm]
    nth_rewrite 1 [← hsplit]
    exact bytes_of_frame (hframe.trans (hstereo _)) hr
  · rw [if_neg hloop] at hframe
    rw [if_neg hloop]
    by_cases hk : p / 4 < n
    · rw [if_pos hk] at hframe
      exact bytes_of_frame (hframe.trans (hstereo _)) hr
    · rw [if_neg hk] at hframe
      rw [bytes_of_frame (b := []) (j := 0) hframe hr,
        List.getD_eq_default f.payload 0 (by omega)]
      rfl

end File

/-! ## Two files -/

theorem idle_init (g : Globals ℚ) (mywavs : Fin 100 → WaveFile) :
    Idle (World.init g mywavs) := by
  refine ⟨List.cons_ne_nil _ _, fun s hs => ?_⟩
  rw [List.eq_of_mem_replicate hs]
  rfl

/-- A file of a `fmt ` and a `data` chunk. -/
def pcmFile (fmt : ReadWave.Fmt) (payload : List UInt8)
    (hpayload : payload.length < 2147483648) : RiffFile where
  riffSize := 36 + fmt.extra.length + payload.length
  before := []
  fmt := fmt
  fmtPad := 0
  between := []
  payload := payload
  dataPad := 0
  tail := []
  before_ids := nofun
  between_ids := nofun
  payload_lt := hpayload

theorem pcmFile_aligned {fmt : ReadWave.Fmt}
    (hfmt : fmt.bytes.length % 2 = 0 ∧ fmt.bytes.length < 2147483648)
    (payload : List UInt8) (hpayload : payload.length < 2147483648) :
    (pcmFile fmt payload hpayload).Aligned where
  before := nofun
  fmt := hfmt
  between := nofun
  fmtOffset := by
    show 12 + 0 + 8 < _
    decide

theorem four_bytes_lt : 4 < 2147483648 := by decide

/-- Two frames of one channel. -/
def monoPair : RiffFile :=
  pcmFile ReadWave.oddFile.fmt [1, 0, 2, 0] four_bytes_lt

/-- Played from the end and round and round, through buffers of two and of one
frame. -/
theorem file_is_heard_monoPair : ∃ w', playIndex (World.init (stereo (-1))
    (fun _ => monoPair.contents ReadWave.freshWave)) 0 1 = some w' ∧
    frameAt (output [2, 1] w') 0 = (2, 2) ∧
    frameAt (output [2, 1] w') 1 = (1, 1) ∧
    frameAt (output [2, 1] w') 2 = (2, 2) := by
  have hread : Reads (some monoPair.bytes) (fun _ => 0) (fun _ => true)
      ReadWave.freshWave true (monoPair.contents ReadWave.freshWave) :=
    ⟨2, by decide⟩
  have hidle := idle_init (stereo (-1))
    (fun _ => monoPair.contents ReadWave.freshWave)
  have haligned : monoPair.Aligned := pcmFile_aligned (by decide) _ _
  obtain ⟨w', hplay, hout⟩ := file_is_heard 1 haligned rfl (Nat.le_refl 1)
    (show 1 ≤ 2 by decide) rfl hread hidle (i := 0) rfl rfl (.inr rfl)
  obtain ⟨-, hframes⟩ := hout [2, 1]
  refine ⟨w', hplay, (hframes 0 (by decide)).trans ?_,
    (hframes 1 (by decide)).trans ?_, (hframes 2 (by decide)).trans ?_⟩
  all_goals rw [heardFrame, if_pos (by norm_num)]; decide

/-- One frame of two channels. -/
def stereoFrame : RiffFile :=
  pcmFile ReadWave.sampleFile.fmt [1, 2, 3, 4] four_bytes_lt

/-- Its bytes and then zeros. -/
theorem file_is_heard_exactly_stereoFrame : ∃ w',
    playIndex (World.init (stereo 1)
      (fun _ => stereoFrame.contents ReadWave.freshWave)) 0 0 = some w' ∧
    (output [1, 1] w')[2]? = some 3 ∧ (output [1, 1] w')[5]? = some 0 := by
  have hread : Reads (some stereoFrame.bytes) (fun _ => 0) (fun _ => true)
      ReadWave.freshWave true (stereoFrame.contents ReadWave.freshWave) :=
    ⟨2, by decide⟩
  have hidle := idle_init (stereo 1)
    (fun _ => stereoFrame.contents ReadWave.freshWave)
  have haligned : stereoFrame.Aligned := pcmFile_aligned (by decide) _ _
  obtain ⟨w', hplay, hout⟩ := file_is_heard_exactly 0 haligned rfl rfl
    (Nat.le_refl 1) rfl hread hidle (i := 0) rfl rfl
  exact ⟨w', hplay, hout [1, 1] 2 (by decide), hout [1, 1] 5 (by decide)⟩

end Bucktoot.Ports.Playback
