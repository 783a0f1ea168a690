import Bucktoot.Verified.Wrap
import Bucktoot.Ports.MovePlayerRuns

/-!
# The speed of the player

The time stamp of the entity is written by the steps of `run_animation` and by
nothing else, so it is the clock reading of the latest step whatever happens
in between (`stamp_run`).  With a clock that does not go back this makes the
speed of the player independent of how often the script is called
(`steadySpeed_run`).
-/

namespace Bucktoot.Ports.MovePlayer

open Bucktoot.Verified.Events
open Bucktoot.Verified.StepSystem
open Bucktoot.Verified.Wrap
open Bucktoot.Ports.Entities

/-! ## Position and time stamp behind a call -/

/-- How far a step goes. -/
def stride : Option Bool → Int
  | some left => (movement left).mx
  | none => 0

theorem stride_eq_zero {s : Option Bool} : stride s = 0 ↔ s = none := by
  rcases s with _ | left
  · exact iff_of_true rfl rfl
  · cases left <;> exact iff_of_false (by decide) (Option.some_ne_none _)

theorem abs_stride_le (s : Option Bool) : |stride s| ≤ 4 := by
  rcases s with _ | left
  · decide
  · cases left <;> decide

theorem movePlayer1_xpos (c : Call) (e : Entity) :
    (movePlayer1 c e).xpos = e.xpos + stride (stepMade c e) := by
  obtain ⟨left, -, hstep, -, heq⟩ | ⟨left, -, hstep, -, heq⟩ | ⟨-, hstep, heq⟩ |
    ⟨-, hstep, heq⟩ | ⟨-, hstep, heq⟩ := movePlayer1_cases c e <;>
    rw [heq, hstep]
  · rfl
  all_goals exact (Int.add_zero _).symm

theorem movePlayer1_time (c : Call) (e : Entity) :
    (movePlayer1 c e).time =
      if stepMade c e = none then e.time else c.tick := by
  obtain ⟨left, -, hstep, -, heq⟩ | ⟨left, -, hstep, -, heq⟩ | ⟨-, hstep, heq⟩ |
    ⟨-, hstep, heq⟩ | ⟨-, hstep, heq⟩ := movePlayer1_cases c e <;>
    rw [heq, hstep] <;> rfl

/-- A step is not throttled. -/
theorem not_throttled_of_stepMade {c : Call} {e : Entity}
    (h : stepMade c e ≠ none) : ¬ Throttled e c.tick := by
  intro hthrottled
  apply h
  rw [stepMade]
  split
  · exact if_pos hthrottled
  · rfl

/-- The throttle on exact differences. -/
theorem throttled_iff {e : Entity} {tick : Int64}
    (h : Fits (tick.toInt - e.time.toInt)) :
    Throttled e tick ↔ tick.toInt < e.time.toInt + 15 := by
  have h15 : (15 : Int64).toInt = 15 := rfl
  rw [Throttled, Int64.lt_iff_toInt_lt, toInt_sub_of_fits h, h15]
  omega

/-- In the two states with an arm for it, a direction key starts a run. -/
theorem branch_of_key {c : Call} {s : PlayerState} (hs : s = .idle ∨ s = .run)
    (hkey : c.isKeyDown .right = true ∨ c.isKeyDown .left = true) :
    branch c s = .run (!c.isKeyDown .right) := by
  cases hright : c.isKeyDown .right with
  | true => rcases hs with rfl | rfl <;> simp [branch, hright]
  | false =>
      have hleft : c.isKeyDown .left = true := by simpa [hright] using hkey
      rcases hs with rfl | rfl <;> simp [branch, hright, hleft]

/-! ## Runs -/

/-- What `run_animation` reads from the clock in call `k`. -/
def clock {p : Entity} (r : Run step p) (k : Nat) : Int :=
  (r.act k).tick.toInt

/-- Call `k` changes the position. -/
def Moved {p : Entity} (r : Run step p) (k : Nat) : Prop :=
  (r.state (k + 1)).xpos ≠ (r.state k).xpos

/-- The speed of the player is set by the clock and not by the calls. -/
structure SteadySpeed {p : Entity} (r : Run step p) : Prop where
  spaced : ∀ j k, j < k → k < r.len → Moved r j → Moved r k →
    clock r j + 15 ≤ clock r k
  bounded : ∀ i j t₁ t₂, i ≤ j → j ≤ r.len → t₁ ≤ t₂ →
    (∀ k, i ≤ k → k < j → t₁ ≤ clock r k ∧ clock r k ≤ t₂) →
    |(r.state j).xpos - (r.state i).xpos| ≤ 4 * ((t₂ - t₁) / 15 + 1)
  moves : ∀ k < r.len, (r.state k).state = .idle ∨ (r.state k).state = .run →
    (r.act k).isKeyDown .right = true ∨ (r.act k).isKeyDown .left = true →
    (∀ j < k, Moved r j → (∀ m, j < m → m < k → ¬ Moved r m) →
      clock r j + 15 ≤ clock r k) →
    ((∀ j < k, ¬ Moved r j) → 15 ≤ clock r k) →
    (r.state (k + 1)).xpos = (r.state k).xpos +
      (if (r.act k).isKeyDown .right = true then 4 else -4)

/-- The clock readings of the steps. -/
def stamps {p : Entity} (r : Run step p) (k : Nat) : Option Int64 :=
  (steps r k).map (fun _ => (r.act k).tick)

section

variable {p : Entity} (r : Run step p)

theorem xpos_succ {k : Nat} (hk : k < r.len) :
    (r.state (k + 1)).xpos = (r.state k).xpos + stride (steps r k) := by
  rw [← Option.some.inj (r.next k hk)]
  exact movePlayer1_xpos _ _

theorem time_succ {k : Nat} (hk : k < r.len) :
    (r.state (k + 1)).time =
      if steps r k = none then (r.state k).time else (r.act k).tick := by
  rw [← Option.some.inj (r.next k hk)]
  exact movePlayer1_time _ _

theorem moved_iff {k : Nat} (hk : k < r.len) :
    Moved r k ↔ steps r k ≠ none := by
  rw [Moved, xpos_succ r hk, Ne, Ne, ← stride_eq_zero]
  omega

theorem stamps_of_moved {k : Nat} (hk : k < r.len) (h : Moved r k) :
    stamps r k = some (r.act k).tick := by
  obtain ⟨left, hleft⟩ := Option.ne_none_iff_exists'.1 ((moved_iff r hk).1 h)
  rw [stamps, hleft]
  rfl

theorem not_moved_of_stamps {k : Nat} (hk : k < r.len)
    (h : stamps r k = none) : ¬ Moved r k := by
  rw [moved_iff r hk, not_not]
  exact Option.map_eq_none_iff.1 h

theorem moved_of_stamps {k : Nat} {t : Int64} (hk : k < r.len)
    (h : stamps r k = some t) : Moved r k ∧ (r.act k).tick = t := by
  obtain ⟨left, hleft, rfl⟩ := Option.map_eq_some_iff.1 h
  refine ⟨?_, rfl⟩
  rw [moved_iff r hk, hleft]
  exact Option.some_ne_none _

/-- The time stamp of an entity is the reading of the latest step, or zero as
`calloc` left it. -/
def Stamped (i : Nat) (e : Entity) : Prop :=
  (Quiet (stamps r) i ∧ e.time = 0) ∨
    (Latest (stamps r) i e.time ∧ 15 ≤ e.time.toInt)

variable {r}

/-- Behind the time stamp the difference that the throttle looks at does not
overflow. -/
theorem Stamped.fits {i : Nat} {e : Entity} (h : Stamped r i e) {tick : Int64}
    (hclock : ∀ t, Latest (stamps r) i t → t.toInt ≤ tick.toInt) :
    Fits (tick.toInt - e.time.toInt) := by
  have htick := fits_toInt tick
  rcases h with ⟨-, hzero⟩ | ⟨hlatest, hpos⟩
  · rw [hzero, Int64.toInt_zero, Int.sub_zero]
    exact htick
  · have hle := hclock _ hlatest
    obtain ⟨hlow, hhigh⟩ := htick
    exact ⟨by omega, by omega⟩

/-- A clock that does not go back is not behind a time stamp. -/
theorem latest_le_clock
    (hclock : ∀ j k, j ≤ k → k < r.len → clock r j ≤ clock r k) {i : Nat}
    (hi : i < r.len) {t : Int64} (h : Latest (stamps r) i t) :
    t.toInt ≤ clock r i := by
  obtain ⟨k, hk, hkt, -⟩ := h
  obtain ⟨-, rfl⟩ := moved_of_stamps r (by omega) hkt
  exact hclock k i (by omega) hi

theorem stamp_run (hp : p.time = 0)
    (hclock : ∀ j k, j ≤ k → k < r.len → clock r j ≤ clock r k) {i : Nat}
    (hi : i ≤ r.len) : Stamped r i (r.state i) := by
  refine r.invariantAt (Stamped r) (.inl ⟨quiet_zero _, hp⟩) ?_ hi
  intro i hi h
  have htime := time_succ r hi
  by_cases hstep : steps r i = none
  · rw [if_pos hstep] at htime
    have hnone : stamps r i = none := by rw [stamps, hstep]; rfl
    rcases h with ⟨hquiet, hzero⟩ | ⟨hlatest, hpos⟩
    · exact .inl ⟨hquiet.succ hnone, htime.trans hzero⟩
    · rw [← htime] at hlatest hpos
      exact .inr ⟨(latest_succ_of_none hnone).2 hlatest, hpos⟩
  · rw [if_neg hstep] at htime
    have hmoved := (moved_iff r hi).2 hstep
    refine .inr ⟨?_, ?_⟩
    · rw [htime]
      exact (latest_succ_of_some (stamps_of_moved r hi hmoved)).2 rfl
    · -- a step is not throttled, and no stamp is negative
      have hfits := h.fits (fun t => latest_le_clock hclock hi)
      have hgo := not_throttled_of_stepMade hstep
      rw [throttled_iff hfits] at hgo
      rw [htime]
      rcases h with ⟨-, hzero⟩ | ⟨-, hpos⟩
      · rw [hzero, Int64.toInt_zero] at hgo
        omega
      · omega

/-- A call that has to run does so when the throttle has run out. -/
theorem xpos_of_key {k : Nat} (hk : k < r.len)
    (hs : (r.state k).state = .idle ∨ (r.state k).state = .run)
    (hkey : (r.act k).isKeyDown .right = true ∨
      (r.act k).isKeyDown .left = true)
    (hgo : ¬ Throttled (r.state k) (r.act k).tick) :
    (r.state (k + 1)).xpos = (r.state k).xpos +
      (if (r.act k).isKeyDown .right = true then 4 else -4) := by
  have hstep : steps r k = some (!(r.act k).isKeyDown .right) := by
    rw [steps, stepMade, branch_of_key hs hkey]
    exact if_neg hgo
  rw [xpos_succ r hk, hstep]
  cases (r.act k).isKeyDown .right <;> rfl

/-- In every call, the throttle is about the exact difference to the stamp. -/
theorem throttled_run_iff (hp : p.time = 0)
    (hclock : ∀ j k, j ≤ k → k < r.len → clock r j ≤ clock r k) {k : Nat}
    (hk : k < r.len) :
    Throttled (r.state k) (r.act k).tick ↔
      clock r k < (r.state k).time.toInt + 15 :=
  throttled_iff ((stamp_run hp hclock hk.le).fits
    (fun _ => latest_le_clock hclock hk))

/-- Two moves are at least 15 apart. -/
theorem clock_of_moved (hp : p.time = 0)
    (hclock : ∀ j k, j ≤ k → k < r.len → clock r j ≤ clock r k) {j k : Nat}
    (hjk : j < k) (hk : k < r.len) (hj : Moved r j) (hmoved : Moved r k) :
    clock r j + 15 ≤ clock r k := by
  have hgo := not_throttled_of_stepMade ((moved_iff r hk).1 hmoved)
  rw [throttled_run_iff hp hclock hk] at hgo
  have hj' := stamps_of_moved r (by omega) hj
  rcases stamp_run hp hclock hk.le with ⟨hquiet, -⟩ | ⟨hlatest, -⟩
  · rw [hquiet j hjk] at hj'
    cases hj'
  · -- the latest step is not in front of `j`
    obtain ⟨m, hjm, hmk, hm⟩ := hlatest.exists_ge hjk hj'
    have htime := (moved_of_stamps r (by omega) hm).2
    have hle : clock r j ≤ clock r m := hclock j m hjm (by omega)
    have hm' : clock r m = (r.state k).time.toInt := congrArg _ htime
    omega

/-- A call 15 after the latest move, or after the start, is not throttled. -/
theorem not_throttled_of_late (hp : p.time = 0)
    (hclock : ∀ j k, j ≤ k → k < r.len → clock r j ≤ clock r k) {k : Nat}
    (hk : k < r.len)
    (hlatest : ∀ j < k, Moved r j → (∀ m, j < m → m < k → ¬ Moved r m) →
      clock r j + 15 ≤ clock r k)
    (hquiet : (∀ j < k, ¬ Moved r j) → 15 ≤ clock r k) :
    ¬ Throttled (r.state k) (r.act k).tick := by
  rw [throttled_run_iff hp hclock hk]
  rcases stamp_run hp hclock hk.le with
    ⟨hnone, hzero⟩ | ⟨⟨j, hj, hjt, hrest⟩, -⟩
  · have h15 := hquiet (fun j hj => not_moved_of_stamps r (by omega)
      (hnone j hj))
    rw [hzero, Int64.toInt_zero]
    omega
  · obtain ⟨hmoved, htime⟩ := moved_of_stamps r (by omega) hjt
    have h15 := hlatest j hj hmoved (fun m hjm hmk =>
      not_moved_of_stamps r (by omega) (hrest m hjm hmk))
    have hj' : clock r j = (r.state k).time.toInt := congrArg _ htime
    omega

end

/-- With a clock that does not go back, steps are 15 apart and happen as soon
as they may. -/
theorem steadySpeed_run (playerBm : Nat) (r : Run step (createP1 playerBm))
    (hclock : ∀ j k, j ≤ k → k < r.len → clock r j ≤ clock r k) :
    SteadySpeed r := by
  constructor
  case spaced =>
    intro j k hjk hk hj hmoved
    exact clock_of_moved rfl hclock hjk hk hj hmoved
  case bounded =>
    intro i j t₁ t₂ hij hj ht hbetween
    refine abs_sub_le_of_spaced (x := fun k => (r.state k).xpos)
      (by decide) hij ht ?_ ?_ hbetween (by decide)
    · intro k _ hkj
      show |(r.state (k + 1)).xpos - (r.state k).xpos| ≤ 4
      rw [xpos_succ r (by omega), add_sub_cancel_left]
      exact abs_stride_le _
    · intro k l _ hkl hlj hk hl
      exact clock_of_moved rfl hclock hkl (by omega) hk hl
  case moves =>
    intro k hk hs hkey hlatest hquiet
    apply xpos_of_key hk hs hkey
    exact not_throttled_of_late rfl hclock hk hlatest hquiet

/-- Two calls with `RIGHT` held, the second one too early. -/
def twoCalls : List Call :=
  [{ isKeyDown := fun key => decide (key = .right), tick := 20 },
    { isKeyDown := fun key => decide (key = .right), tick := 30 }]

def twoCallsRun : Run step (createP1 0) := Run.ofExec twoCalls zHeld rfl

/-- `steadySpeed_run` at a run that is throttled once. -/
theorem steadySpeed_twoCallsRun : SteadySpeed twoCallsRun :=
  steadySpeed_run 0 twoCallsRun (by
    intro j k hjk hk
    have hk2 : k < 2 := hk
    have hcases : (j = 0 ∧ k = 0) ∨ (j = 0 ∧ k = 1) ∨ (j = 1 ∧ k = 1) := by
      omega
    obtain ⟨rfl, rfl⟩ | ⟨rfl, rfl⟩ | ⟨rfl, rfl⟩ := hcases
    · exact Int.le_refl _
    · decide
    · exact Int.le_refl _)

end Bucktoot.Ports.MovePlayer
