import Bucktoot.Ports.MovePlayerSpeed

/-!
# The clock of `utils_time.c`

`get_time` turns the performance counter into milliseconds.  It multiplies by
1000 first and divides then, in 64-bit words that wrap.  `TellsTime` is what
the player script relies on: exact milliseconds that do not go back, so that
no time stamp lies in the future.  `tellsTime_iff` says that this holds
exactly as long as the product fits.
-/

namespace Bucktoot.Ports.Clock

open Bucktoot.Verified.StepSystem
open Bucktoot.Verified.Wrap
open Bucktoot.Ports.Entities
open Bucktoot.Ports.MovePlayer

/-! ## The function -/

/-- The static variables of `get_time`. -/
structure Statics where
  freq : Int64
  haveFreq : Bool

def Statics.init : Statics := { freq := 0, haveFreq := false }

/-- `get_time` while the counter of this frequency stands at `tmp`. -/
def getTime (frequency tmp : Int64) (s : Statics) : Int64 × Statics :=
  let s := if s.haveFreq then s else { freq := frequency, haveFreq := true }
  let result := if s.freq ≠ 0 then tmp * 1000 / s.freq else 0
  (result, s)

/-- The results of one call after the other. -/
def getTimes (frequency : Int64) : List Int64 → Statics → List Int64
  | [], _ => []
  | tmp :: rest, s =>
      (getTime frequency tmp s).1 ::
        getTimes frequency rest (getTime frequency tmp s).2

theorem getTimes_of_haveFreq {frequency : Int64} (hf : frequency ≠ 0)
    (readings : List Int64) :
    getTimes frequency readings { freq := frequency, haveFreq := true } =
      readings.map (fun tmp => tmp * 1000 / frequency) := by
  induction readings with
  | nil => rfl
  | cons tmp rest ih =>
      have hstep : getTime frequency tmp ⟨frequency, true⟩ =
          (tmp * 1000 / frequency, ⟨frequency, true⟩) := by
        simp [getTime, hf]
      rw [getTimes, hstep, ih, List.map_cons]

/-- The static variables only save a question. -/
theorem getTimes_init {frequency : Int64} (hf : frequency ≠ 0)
    (readings : List Int64) :
    getTimes frequency readings .init =
      readings.map (fun tmp => tmp * 1000 / frequency) := by
  rw [← getTimes_of_haveFreq hf]
  cases readings with
  | nil => rfl
  | cons tmp rest => rfl

/-! ## What the script relies on -/

/-- The clock readings of a run of the player. -/
def ticks {p : Entity} (r : Run step p) : List Int64 :=
  (List.range r.len).map (fun k => (r.act k).tick)

/-- The results for these readings are the milliseconds, they do not go back,
and a player that reads some of them never computes a negative delta. -/
structure TellsTime (frequency : Int64) (readings : List Int64) : Prop where
  exact : (getTimes frequency readings .init).map Int64.toInt =
    readings.map (fun c => 1000 * c.toInt / frequency.toInt)
  nondecreasing : (getTimes frequency readings .init).Pairwise
    (fun t u => t.toInt ≤ u.toInt)
  delta : ∀ (playerBm : Nat) (r : Run step (createP1 playerBm)),
    (ticks r).Sublist (getTimes frequency readings .init) →
    ∀ k < r.len, 0 ≤ ((r.act k).tick - (r.state k).time).toInt

/-- A player whose clock does not go back and is not negative. -/
theorem delta_nonneg {playerBm : Nat} {r : Run step (createP1 playerBm)}
    (hclock : ∀ j k, j ≤ k → k < r.len → clock r j ≤ clock r k)
    (hnonneg : ∀ k < r.len, 0 ≤ clock r k) {k : Nat} (hk : k < r.len) :
    0 ≤ ((r.act k).tick - (r.state k).time).toInt := by
  have hstamp := stamp_run (p := createP1 playerBm) rfl hclock hk.le
  rw [toInt_sub_of_fits (hstamp.fits (fun t => latest_le_clock hclock hk))]
  show 0 ≤ clock r k - (r.state k).time.toInt
  rcases hstamp with ⟨-, hzero⟩ | ⟨hlatest, -⟩
  · rw [hzero, Int64.toInt_zero, Int.sub_zero]
    exact hnonneg k hk
  · have := latest_le_clock hclock hk hlatest
    omega

/-- Readings in order, as a property of the run that reads them. -/
theorem clock_le_of_pairwise {p : Entity} {r : Run step p}
    (h : (ticks r).Pairwise (fun t u => t.toInt ≤ u.toInt)) {j k : Nat}
    (hjk : j ≤ k) (hk : k < r.len) : clock r j ≤ clock r k := by
  rcases Nat.lt_or_eq_of_le hjk with hlt | rfl
  · have hrange := List.pairwise_iff_getElem.1 (List.pairwise_map.1 h) j k
      (by rw [List.length_range]; omega) (by rwa [List.length_range]) hlt
    rwa [List.getElem_range, List.getElem_range] at hrange
  · exact Int.le_refl _

variable {frequency : Int64}

/-- One reading. -/
theorem toInt_milliseconds_iff (hf : 0 < frequency.toInt) {c : Int64}
    (hc : 0 ≤ c.toInt) :
    (c * 1000 / frequency).toInt = 1000 * c.toInt / frequency.toInt ↔
      1000 * c.toInt < 2 ^ 63 := by
  have h := toInt_mul_div_iff (b := 1000) hc (by decide) hf
  rwa [show (1000 : Int64).toInt = 1000 from rfl, Int.mul_comm] at h

/-- The clock does what the player script relies on exactly if no reading
overflows when it is multiplied by 1000. -/
theorem tellsTime_iff (frequency : Int64) (readings : List Int64)
    (hf : 0 < frequency.toInt) (hnonneg : ∀ c ∈ readings, 0 ≤ c.toInt)
    (hsorted : readings.Pairwise (fun c d => c.toInt ≤ d.toInt)) :
    TellsTime frequency readings ↔ ∀ c ∈ readings, 1000 * c.toInt < 2 ^ 63 := by
  have hne : frequency ≠ 0 := by
    rintro rfl
    exact Int.lt_irrefl 0 hf
  have hexact : (getTimes frequency readings .init).map Int64.toInt =
      readings.map (fun c => 1000 * c.toInt / frequency.toInt) ↔
      ∀ c ∈ readings, 1000 * c.toInt < 2 ^ 63 := by
    rw [getTimes_init hne, List.map_map, List.map_inj_left]
    exact forall₂_congr (fun c hc => toInt_milliseconds_iff hf (hnonneg c hc))
  constructor
  · exact fun h => hexact.1 h.exact
  · intro hfits
    have hmillis : ∀ c ∈ readings, (c * 1000 / frequency).toInt =
        1000 * c.toInt / frequency.toInt :=
      fun c hc => (toInt_milliseconds_iff hf (hnonneg c hc)).2 (hfits c hc)
    have hpairwise : (getTimes frequency readings .init).Pairwise
        (fun t u => t.toInt ≤ u.toInt) := by
      rw [getTimes_init hne, List.pairwise_map]
      apply hsorted.imp_of_mem
      intro c d hc hd hcd
      rw [hmillis c hc, hmillis d hd]
      exact Int.ediv_le_ediv hf (by omega)
    refine ⟨hexact.2 hfits, hpairwise, ?_⟩
    intro playerBm r hticks k hk
    refine delta_nonneg (fun j k hjk hk =>
      clock_le_of_pairwise (hpairwise.sublist hticks) hjk hk) ?_ hk
    intro k hk
    have hmem : (r.act k).tick ∈ getTimes frequency readings .init :=
      hticks.subset (List.mem_map.2 ⟨k, List.mem_range.2 hk, rfl⟩)
    rw [getTimes_init hne] at hmem
    obtain ⟨c, hc, heq⟩ := List.mem_map.1 hmem
    show 0 ≤ (r.act k).tick.toInt
    rw [← heq, hmillis c hc]
    exact Int.ediv_nonneg (by have := hnonneg c hc; omega) hf.le

theorem forall_mem_pair {P : Int64 → Prop} {c d : Int64} (hc : P c)
    (hd : P d) : ∀ x ∈ [c, d], P x :=
  List.forall_mem_cons.2 ⟨hc, List.forall_mem_singleton.2 hd⟩

/-- Two readings of a counter of ten megahertz tell the time.  With the second
one after thirty years they do not: its product overflows. -/
theorem tellsTime_tenMegahertz :
    TellsTime 10000000 [10000, 50000] ∧
      ¬ TellsTime 10000000 [10000, 9460800000000000] := by
  constructor
  · exact (tellsTime_iff 10000000 [10000, 50000] (by decide)
      (forall_mem_pair (by decide) (by decide)) (by decide)).2
      (forall_mem_pair (by decide) (by decide))
  · intro htells
    have hfits := (tellsTime_iff 10000000 [10000, 9460800000000000]
      (by decide) (forall_mem_pair (by decide) (by decide))
      (by decide)).1 htells
    exact absurd (hfits 9460800000000000 (by decide)) (by decide)

/-- A counter of three gigahertz, after 35 days and a half: from one reading
to the next the clock goes back by more than seventy days. -/
theorem not_tellsTime :
    ¬ ∀ (frequency : Int64) (readings : List Int64), 0 < frequency.toInt →
      (∀ c ∈ readings, 0 ≤ c.toInt) →
      readings.Pairwise (fun c d => c.toInt ≤ d.toInt) →
      (∀ c ∈ readings, 1000 * c.toInt / frequency.toInt < 2 ^ 63) →
      TellsTime frequency readings := by
  intro h
  have hback := (h 3000000000 [9223372036854775, 9223372036854776] (by decide)
    (forall_mem_pair (by decide) (by decide)) (by decide)
    (forall_mem_pair (by decide) (by decide))).nondecreasing
  revert hback
  decide

end Bucktoot.Ports.Clock
