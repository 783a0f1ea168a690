import Mathlib.Tactic.IntervalCases
import Bucktoot.Verified.StepSystem
import Bucktoot.Ports.MixerExact
import Bucktoot.Ports.VoicePool

/-!
# The voice pool over whole runs

Requests and slots are related by the history of a run.  A request *takes* a
slot at the step at which `add_sample` copies its voice there, and *holds* it
from then on as long as the slot plays.  `pool_accounts` says that this
relation is a one-to-one correspondence at every moment, and what each
operation does to the slots.

The only fact about a step that the proofs use is `step_slot`: a slot that
plays after a step either played before it, and was at most moved, or was the
lowest free one and has just been taken.
-/

namespace Bucktoot.Ports.VoicePool

open Bucktoot.Verified.FirstSlot
open Bucktoot.Verified.StepSystem
open Bucktoot.Ports.Mixer
open Bucktoot.Ports.ReadWave (WaveFile)

/-! ## Slots -/

section Slots

variable {F : Type}

/-- Slot `j` holds a voice that plays. -/
def Plays (w : World F) (j : Nat) : Prop :=
  ∃ s, w.list[j]? = some s ∧ s.play ≠ 0

instance (w : World F) (j : Nat) : Decidable (Plays w j) :=
  decidable_of_iff (∃ s ∈ w.list[j]?, s.play ≠ 0) Iff.rfl

/-- Slot `j` is the lowest one that does not play. -/
def LowestFree (w : World F) (j : Nat) : Prop :=
  IsFirst (fun s : WaveSample F => s.play = 0) w.list j

/-- Every slot plays. -/
def NoneFree (w : World F) : Prop :=
  Full (fun s : WaveSample F => s.play = 0) w.list

theorem addSample_of_lowestFree {w : World F} {j : Nat}
    (h : LowestFree w j) (ws : WaveSample F) :
    addSample w.list ws = w.list.set j { ws with play := 1 } :=
  fillFirst_of_isFirst _ h

theorem addSample_of_noneFree {w : World F} (h : NoneFree w)
    (ws : WaveSample F) : addSample w.list ws = w.list :=
  fillFirst_of_full _ h

theorem LowestFree.not_plays {w : World F} {j : Nat} (h : LowestFree w j) :
    ¬ Plays w j := by
  obtain ⟨⟨s, hs, hfree⟩, -⟩ := h
  rintro ⟨s', hs', hplay⟩
  rw [hs] at hs'
  obtain rfl := Option.some.inj hs'
  exact hplay hfree

theorem forall₂_slot {R : WaveSample F → WaveSample F → Prop}
    {list list' : List (WaveSample F)} (h : List.Forall₂ R list list')
    {j : Nat} {s' : WaveSample F} (hs' : list'[j]? = some s') :
    ∃ s, list[j]? = some s ∧ R s s' := by
  induction h generalizing j with
  | nil => simp at hs'
  | cons hR _ ih =>
      cases j with
      | zero =>
          obtain rfl := Option.some.inj hs'
          exact ⟨_, rfl, hR⟩
      | succ j => exact ih hs'

theorem not_plays_init [IntCast F] (g : Globals F)
    (mywavs : Fin 100 → WaveFile) (j : Nat) :
    ¬ Plays (World.init g mywavs) j := by
  rintro ⟨s, hs, hplay⟩
  have hzero : s = zeroVoice := by
    rw [World.init, List.getElem?_replicate] at hs
    split at hs
    · exact (Option.some.inj hs).symm
    · cases hs
  rw [hzero] at hplay
  exact hplay rfl

end Slots

variable {F : Type} [Add F] [Sub F] [Mul F] [Div F] [IntCast F] [LT F] [LE F]
  [DecidableLT F] [DecidableLE F] [Double F]

/-! ## One step -/

/-- What a request that returns has done. -/
theorem playIndex_cases {w w' : World F} {i loop : Int}
    (h : step w (.play i loop) = some w') :
    (w.fileAt i = none ∧ w' = w) ∨
      ∃ wf ws, w.fileAt i = some wf ∧ OfRequest wf loop ws ∧ ws.play = 1 ∧
        w' = { w with list := addSample w.list ws } := by
  simp only [step, playIndex] at h
  split at h
  · rename_i hfile
    exact .inl ⟨hfile, (Option.some.inj h).symm⟩
  · rename_i wf hfile
    split at h
    · cases h
    · rename_i ws hws
      obtain ⟨hof, hplay⟩ := startVoice_ofRequest hws
      exact .inr ⟨wf, ws, hfile, hof, hplay, (Option.some.inj h).symm⟩

/-- A slot after a step: it was there before and has at most been moved or
ended, or it was the lowest free one and a request has just taken it. -/
theorem step_slot {w w' : World F} {a : Op F} (h : step w a = some w')
    {j : Nat} {s' : WaveSample F} (hs' : w'.list[j]? = some s') :
    (∃ s, w.list[j]? = some s ∧ Continues s s') ∨
      ∃ i loop wf, a = .play i loop ∧ w.fileAt i = some wf ∧
        LowestFree w j ∧ OfRequest wf loop s' := by
  cases a with
  | play i loop =>
      obtain ⟨-, rfl⟩ | ⟨wf, ws, hfile, hof, hplay, rfl⟩ := playIndex_cases h
      · exact .inl ⟨s', hs', .refl s'⟩
      · rcases fillFirst_slot hs' with ⟨hfree, rfl⟩ | hsame
        · exact .inr ⟨i, loop, wf, rfl, hfile, hfree, hof.stored⟩
        · exact .inl ⟨s', hsame, .refl s'⟩
  | clear =>
      obtain rfl := Option.some.inj h
      simp only [clearAll, List.getElem?_map, Option.map_eq_some_iff] at hs'
      obtain ⟨s, hs, rfl⟩ := hs'
      exact .inl ⟨s, hs, rfl, .inr rfl⟩
  | speed mod =>
      obtain rfl := Option.some.inj h
      exact .inl ⟨s', hs', .refl s'⟩
  | callback size =>
      obtain rfl := Option.some.inj h
      obtain ⟨s, hs, hmixed⟩ := forall₂_slot (mixList_slots _ _ _) hs'
      exact .inl ⟨s, hs, hmixed.1⟩

/-! ## Requests and slots -/

section Runs

variable {g : Globals F} {mywavs : Fin 100 → WaveFile}
  (r : Run step (World.init g mywavs))

/-- Step `t` of the run is a request for the loaded file `wf`. -/
def Requests (t : Nat) (wf : WaveFile) (loop : Int) : Prop :=
  t < r.len ∧ ∃ i, r.act t = .play i loop ∧ (r.state t).fileAt i = some wf

/-- The request of step `t` takes slot `j`. -/
def Takes (t j : Nat) : Prop :=
  (∃ wf loop, Requests r t wf loop) ∧ LowestFree (r.state t) j

/-- At moment `n` the request of step `t` has slot `j`, and has had it ever
since it took it: it has neither ended nor been cleared. -/
def Holds (n t j : Nat) : Prop :=
  t < n ∧ Takes r t j ∧ ∀ m, t < m → m ≤ n → Plays (r.state m) j

/-- **The pool keeps account of its voices.** -/
structure Accounts : Prop where
  /-- A request for a loaded file takes the lowest free slot and leaves the
  others alone, or changes no slot if none is free. -/
  request : ∀ t wf loop, Requests r t wf loop →
    (∃ j ws, LowestFree (r.state t) j ∧ OfRequest wf loop ws ∧ ws.play = 1 ∧
      (r.state (t + 1)).list = (r.state t).list.set j ws) ∨
    (NoneFree (r.state t) ∧ (r.state (t + 1)).list = (r.state t).list)
  /-- Any other request changes nothing. -/
  refused : ∀ t < r.len, ∀ i loop, r.act t = .play i loop →
    (r.state t).fileAt i = none → r.state (t + 1) = r.state t
  /-- A slot keeps the data of the request that took it as long as it plays. -/
  keeps : ∀ n ≤ r.len, ∀ t j wf loop, Requests r t wf loop → Holds r n t j →
    ∃ s, (r.state n).list[j]? = some s ∧ OfRequest wf loop s
  /-- A callback moves or ends the voices that play and does nothing else. -/
  callback : ∀ t < r.len, ∀ size, r.act t = .callback size →
    List.Forall₂ SlotMixed (r.state t).list (r.state (t + 1)).list
  /-- `clear_all` changes the play flags only. -/
  clear : ∀ t < r.len, r.act t = .clear →
    (r.state (t + 1)).list =
      (r.state t).list.map fun s => { s with play := 0 }
  /-- `mod_speed` does not touch the slots. -/
  speed : ∀ t < r.len, ∀ mod, r.act t = .speed mod →
    (r.state (t + 1)).list = (r.state t).list
  /-- The playing slots are those that some request holds. -/
  owner : ∀ n ≤ r.len, ∀ j, Plays (r.state n) j ↔ ∃ t, Holds r n t j
  /-- No two requests hold one slot. -/
  oneRequest : ∀ n t t' j, Holds r n t j → Holds r n t' j → t = t'
  /-- No request holds two slots. -/
  oneSlot : ∀ n t j j', Holds r n t j → Holds r n t j' → j = j'

/-! ## The account -/

variable {r}

theorem Holds.plays {n t j : Nat} (h : Holds r n t j) : Plays (r.state n) j :=
  h.2.2 n h.1 (Nat.le_refl n)

/-- A playing slot was taken by a request and has played since. -/
theorem exists_holds {n : Nat} (hn : n ≤ r.len) {j : Nat}
    (h : Plays (r.state n) j) : ∃ t, Holds r n t j := by
  have h0 : ¬ Plays (r.state 0) j := by
    rw [r.start]
    exact not_plays_init g mywavs j
  obtain ⟨t, ht, hbefore, hsince⟩ :=
    exists_rise (P := fun m => Plays (r.state m) j) h0 h
  obtain ⟨s', hs', hplay'⟩ := hsince (t + 1) (by omega) (by omega)
  have hlt : t < r.len := by omega
  rcases step_slot (r.next t hlt) hs' with
    ⟨s, hs, hc⟩ | ⟨i, loop, wf, hact, hfile, hfree, -⟩
  · -- the slot would have played at `t` already
    rcases hc.play with hsame | hend
    · exact absurd ⟨s, hs, by rw [← hsame]; exact hplay'⟩ hbefore
    · exact absurd hend hplay'
  · exact ⟨t, ht, ⟨⟨wf, loop, hlt, i, hact, hfile⟩, hfree⟩, hsince⟩

/-- What the step of a request does to the slots. -/
theorem Requests.list {t : Nat} {wf : WaveFile} {loop : Int}
    (h : Requests r t wf loop) :
    (∃ j ws, LowestFree (r.state t) j ∧ OfRequest wf loop ws ∧ ws.play = 1 ∧
      (r.state (t + 1)).list = (r.state t).list.set j ws) ∨
    (NoneFree (r.state t) ∧ (r.state (t + 1)).list = (r.state t).list) := by
  obtain ⟨hlt, i, hact, hfile⟩ := h
  rcases playIndex_cases (r.next_of_act hlt hact) with
    ⟨hnone, -⟩ | ⟨wf', ws, hfile', hof, hplay, hw⟩
  · rw [hnone] at hfile
    cases hfile
  · rw [hfile'] at hfile
    obtain rfl := Option.some.inj hfile
    rw [hw]
    rcases full_or_isFirst (fun s : WaveSample F => s.play = 0)
      (r.state t).list with hfull | ⟨j, hj⟩
    · exact .inr ⟨hfull, addSample_of_noneFree hfull ws⟩
    · exact .inl ⟨j, { ws with play := 1 }, hj, hof.stored, rfl,
        addSample_of_lowestFree hj ws⟩

/-- A slot keeps the data of the request that holds it. -/
theorem Holds.keeps {n t j : Nat} (h : Holds r n t j) (hn : n ≤ r.len)
    {wf : WaveFile} {loop : Int} (hreq : Requests r t wf loop) :
    ∃ s, (r.state n).list[j]? = some s ∧ OfRequest wf loop s := by
  obtain ⟨htn, ⟨-, hfree⟩, hsince⟩ := h
  refine r.between
    (fun w => ∃ s, w.list[j]? = some s ∧ OfRequest wf loop s)
    (show t + 1 ≤ n from htn) ?_ ?_
  · rcases hreq.list with ⟨k, ws, hk, hof, -, hlist⟩ | ⟨hfull, -⟩
    · obtain rfl := hfree.unique hk
      refine ⟨ws, ?_, hof⟩
      rw [hlist, List.getElem?_set_self hk.lt_length]
    · exact absurd hfree (hfull.not_isFirst j)
  · rintro m htm hmn ⟨s, hs, hof⟩
    obtain ⟨s', hs', -⟩ := hsince (m + 1) (by omega) (by omega)
    refine ⟨s', hs', ?_⟩
    rcases step_slot (r.next m (by omega)) hs' with
      ⟨s₀, hs₀, hc⟩ | ⟨_, _, _, -, -, hfree', -⟩
    · rw [hs] at hs₀
      obtain rfl := Option.some.inj hs₀
      exact hof.continues hc
    · exact absurd (hsince m (by omega) (by omega)) hfree'.not_plays

/-- A later request cannot take a slot that is held. -/
theorem Holds.not_later {n t t' j : Nat} (h : Holds r n t j)
    (h' : Holds r n t' j) : ¬ t < t' := by
  intro hlt
  exact h'.2.1.2.not_plays (h.2.2 t' hlt (Nat.le_of_lt h'.1))

variable (r)

/-- The pool neither loses, overwrites nor duplicates a voice. -/
theorem pool_accounts : Accounts r where
  request := fun t wf loop h => h.list
  refused := by
    intro t ht i loop hact hnone
    rcases playIndex_cases (r.next_of_act ht hact) with
      ⟨-, hw⟩ | ⟨_, _, hfile, -⟩
    · exact hw
    · rw [hnone] at hfile
      cases hfile
  keeps := fun n hn t j wf loop hreq h => h.keeps hn hreq
  callback := by
    intro t ht size hact
    rw [← Option.some.inj (r.next_of_act ht hact)]
    exact mixList_slots _ _ _
  clear := by
    intro t ht hact
    rw [← Option.some.inj (r.next_of_act ht hact)]
    rfl
  speed := by
    intro t ht mod hact
    rw [← Option.some.inj (r.next_of_act ht hact)]
    rfl
  owner := fun n hn j => ⟨exists_holds hn, fun ⟨_, h⟩ => h.plays⟩
  oneRequest := by
    intro n t t' j h h'
    have hle := h.not_later h'
    have hge := h'.not_later h
    omega
  oneSlot := fun n t j j' h h' => h.2.1.2.unique h'.2.1.2

end Runs

/-- A file of one frame of two channels. -/
def frameFile : WaveFile := ⟨some "a.wav", [1, 0, 2, 0], 4, 44100, 2, 16⟩

/-- It is started in a loop, a buffer is filled, and all voices are stopped. -/
def playedThrough : List (Op ℚ) := [.play 0 1, .callback 4, .clear]

theorem playedThrough_possible :
    (exec step playedThrough
      (World.init (stereo 1) fun _ => frameFile)).isSome = true := by
  decide +kernel

def playedRun : Run step (World.init (stereo (1 : ℚ)) fun _ => frameFile) :=
  .ofExec playedThrough .clear (Option.some_get playedThrough_possible).symm

/-- In this run the request holds the first slot, with the data of its file,
through the callback and up to `clear_all`. -/
theorem pool_accounts_playedRun :
    (∃ t, Holds playedRun 2 t 0) ∧
      (∃ s, (playedRun.state 2).list[0]? = some s ∧
        OfRequest frameFile 1 s) ∧
      ¬ ∃ t, Holds playedRun 3 t 0 := by
  have haccounts := pool_accounts playedRun
  have hplays : Plays (playedRun.state 2) 0 := by decide +kernel
  have hended : ¬ Plays (playedRun.state 3) 0 := by decide +kernel
  obtain ⟨t, hholds⟩ := (haccounts.owner 2 (by decide) 0).1 hplays
  have hrequest : Requests playedRun 0 frameFile 1 := ⟨by decide, 0, rfl, rfl⟩
  -- only the first step is a request
  obtain rfl : t = 0 := by
    obtain ⟨-, ⟨⟨_, _, hlt, _, hact, -⟩, -⟩, -⟩ := hholds
    change t < 3 at hlt
    interval_cases t
    · rfl
    · cases hact
    · cases hact
  exact ⟨⟨0, hholds⟩,
    haccounts.keeps 2 (by decide) 0 0 frameFile 1 hrequest hholds,
    fun h => hended ((haccounts.owner 3 (by decide) 0).2 h)⟩

end Bucktoot.Ports.VoicePool
