import Mathlib.Data.Nat.Count
import Mathlib.Data.Rat.Cast.Defs
import Mathlib.Tactic.IntervalCases
import Bucktoot.Verified.Events
import Bucktoot.Ports.MovePlayer

/-!
# Runs of the player script

What holds of the player after any number of calls of `move_player1`, with any
keys and any clock.

* `Responsive` — released keys bring the player back to its idle pose;
  `responsive_run_iff`: they do until a call takes the arm for `Z`, which
  enters a state that the switch has no arm for;
* `Consistent` — frame, sprite, position and flip against the history of the
  run, and `consistent_run`: they always agree.
-/

namespace Bucktoot.Ports.MovePlayer

open Bucktoot.Verified.Events
open Bucktoot.Verified.StepSystem
open Bucktoot.Ports.Entities

/-! ## Coming to rest -/

/-- None of the keys the script asks for is held. -/
def Call.Released (c : Call) : Prop := ∀ key, c.isKeyDown key = false

/-- The state and the pose of a player at rest. -/
structure AtRest (e : Entity) : Prop where
  state : e.state = .idle
  frame : e.anim.frame = 0
  sx : e.anim.sx = 80
  sy : e.anim.sy = 34

/-- A call without keys brings the player to rest. -/
def Responsive (e : Entity) : Prop :=
  ∀ c : Call, c.Released → AtRest (movePlayer1 c e)

/-- The call that leaves `PS_IDLE` for `PS_JUMP`. -/
structure Jumps (c : Call) (e : Entity) : Prop where
  state : e.state = .idle
  right : c.isKeyDown .right = false
  left : c.isKeyDown .left = false
  z : c.isKeyDown .z = true

theorem branch_eq_jump_iff {c : Call} {e : Entity} :
    branch c e.state = .jump ↔ Jumps c e := by
  constructor
  · intro h
    cases hs : e.state with
    | idle =>
        rw [hs, branch] at h
        split at h
        · cases h
        · split at h
          · cases h
          · split at h
            · exact ⟨hs, by simp_all, by simp_all, by assumption⟩
            · cases h
    | run =>
        rw [hs, branch] at h
        split at h
        · cases h
        · split at h <;> cases h
    | jump | fall | dead =>
        rw [hs] at h
        cases h
  · rintro ⟨hs, hright, hleft, hz⟩
    simp [hs, branch, hright, hleft, hz]

theorem branch_of_released {c : Call} (h : c.Released) {s : PlayerState}
    (hs : s = .idle ∨ s = .run) : branch c s = .idle := by
  rcases hs with rfl | rfl
  · simp [branch, h .right, h .left, h .z]
  · simp [branch, h .right, h .left]

/-- The state behind a call: the arm says it. -/
theorem movePlayer1_state (c : Call) (e : Entity) :
    (movePlayer1 c e).state = match branch c e.state with
      | .run _ => .run
      | .jump => .jump
      | .idle => .idle
      | .none => e.state := by
  obtain ⟨left, hb, -, -, heq⟩ | ⟨left, hb, -, -, heq⟩ | ⟨hb, -, heq⟩ |
    ⟨hb, -, heq⟩ | ⟨hb, -, heq⟩ := movePlayer1_cases c e <;>
    rw [heq, hb] <;> rfl

/-- Only the two states the switch has an arm for can be left. -/
theorem responsive_iff {e : Entity} :
    Responsive e ↔ e.state = .idle ∨ e.state = .run := by
  constructor
  · intro h
    have hidle := (h ⟨fun _ => false, 0⟩ (fun _ => rfl)).state
    rw [movePlayer1_state] at hidle
    cases hs : e.state with
    | idle => exact .inl rfl
    | run => exact .inr rfl
    | jump | fall | dead =>
        rw [hs] at hidle
        cases hidle
  · intro hs c hc
    have hb := branch_of_released hc hs
    rw [movePlayer1_eq, hb]
    exact ⟨rfl, rfl, rfl, rfl⟩

theorem branch_ne_none {c : Call} {s : PlayerState}
    (hs : s = .idle ∨ s = .run) : branch c s ≠ .none := by
  rcases hs with rfl | rfl
  · rw [branch]
    split
    · exact Branch.noConfusion
    · split
      · exact Branch.noConfusion
      · split <;> exact Branch.noConfusion
  · rw [branch]
    split
    · exact Branch.noConfusion
    · split <;> exact Branch.noConfusion

/-- The state at some moment of a run: one of the two with an arm as long as
no call has jumped, and the one without from then on. -/
theorem state_run {p : Entity} (hp : p.state = .idle) (r : Run step p) {i : Nat}
    (hi : i ≤ r.len) :
    ((∀ k < i, ¬ Jumps (r.act k) (r.state k)) ∧
      ((r.state i).state = .idle ∨ (r.state i).state = .run)) ∨
    ((∃ k < i, Jumps (r.act k) (r.state k)) ∧ (r.state i).state = .jump) := by
  apply r.invariantAt (fun i e =>
    ((∀ k < i, ¬ Jumps (r.act k) (r.state k)) ∧
      (e.state = .idle ∨ e.state = .run)) ∨
    ((∃ k < i, Jumps (r.act k) (r.state k)) ∧ e.state = .jump)) _ _ hi
  · exact .inl ⟨fun k hk => absurd hk (Nat.not_lt_zero k), .inl hp⟩
  · intro i hi hinv
    have hstate := movePlayer1_state (r.act i) (r.state i)
    rw [Option.some.inj (r.next i hi)] at hstate
    rcases hinv with ⟨hnone, hs⟩ | ⟨⟨k, hk, hjump⟩, hs⟩
    · by_cases hjump : Jumps (r.act i) (r.state i)
      · rw [branch_eq_jump_iff.2 hjump] at hstate
        exact .inr ⟨⟨i, Nat.lt_succ_self i, hjump⟩, hstate⟩
      · refine .inl ⟨Nat.forall_lt_succ_right.2 ⟨hnone, hjump⟩, ?_⟩
        cases hb : branch (r.act i) (r.state i).state with
        | run left => rw [hb] at hstate; exact .inr hstate
        | jump => exact absurd (branch_eq_jump_iff.1 hb) hjump
        | idle => rw [hb] at hstate; exact .inl hstate
        | none => exact absurd hb (branch_ne_none hs)
    · rw [hs] at hstate
      exact .inr ⟨⟨k, by omega, hjump⟩, hstate⟩

/-- In every run, the player responds exactly as long as no call was made in
`PS_IDLE` with `Z` held and neither `RIGHT` nor `LEFT`. -/
theorem responsive_run_iff (playerBm : Nat) (r : Run step (createP1 playerBm))
    (i : Nat) (hi : i ≤ r.len) :
    Responsive (r.state i) ↔ ∀ k < i, ¬ Jumps (r.act k) (r.state k) := by
  rw [responsive_iff]
  rcases state_run rfl r hi with ⟨hnone, hs⟩ | ⟨⟨k, hk, hjump⟩, hs⟩
  · exact iff_of_true hs hnone
  · refine iff_of_false ?_ (fun hnone => hnone k hk hjump)
    rw [hs]
    rintro (h | h) <;> cases h

/-- Only `Z` is held. -/
def zHeld : Call := { isKeyDown := fun key => decide (key = .z), tick := 0 }

/-- One call with `Z` held, as a run. -/
def zRun : Run step (createP1 0) := Run.ofExec [zHeld] zHeld rfl

/-- Exactly these keys are held. -/
def callWith (keys : List Key) (tick : Int64) : Call where
  isKeyDown key := decide (key ∈ keys)
  tick := tick

/-- To the right, too early for the next step, to the right with `Z` held, to
the left, and nothing. -/
def thereAndBack : List Call :=
  [callWith [.right] 20, callWith [.right] 25, callWith [.right, .z] 40,
    callWith [.left] 60, callWith [] 75]

def thereAndBackRun : Run step (createP1 0) :=
  Run.ofExec thereAndBack zHeld rfl

/-- The player responds in the middle of one run, and not at the end of the
one that only presses `Z`. -/
theorem responsive_thereAndBackRun :
    Responsive (thereAndBackRun.state 3) ∧ ¬ Responsive (zRun.state 1) := by
  refine ⟨(responsive_run_iff 0 thereAndBackRun 3 (by decide)).2 ?_, ?_⟩
  · -- `Z` is held once, together with `RIGHT`
    intro k hk hjump
    have hz := hjump.z
    have hright := hjump.right
    interval_cases k
    · exact absurd hz (by decide)
    · exact absurd hz (by decide)
    · exact absurd hright (by decide)
  · rw [responsive_run_iff 0 zRun 1 (Nat.le_refl 1)]
    exact fun hnone => hnone 0 Nat.one_pos ⟨rfl, rfl, rfl, rfl⟩

/-- After one call with `Z` held the player does not come to rest any more. -/
theorem not_responsive_after_z :
    ¬ ∀ (playerBm : Nat) (r : Run step (createP1 playerBm)), ∀ i ≤ r.len,
      Responsive (r.state i) := by
  intro h
  have hjump : Jumps (zRun.act 0) (zRun.state 0) := ⟨rfl, rfl, rfl, rfl⟩
  have hstate : (zRun.state 1).state = .jump := rfl
  have hresp := responsive_iff.1 (h 0 zRun 1 (Nat.le_refl 1))
  rw [hstate] at hresp
  rcases hresp with h | h <;> cases h

/-! ## Frame, sprite, position and flip -/

/-- A call writes a pose: `run_animation` behind its throttle, or
`player_idle`. -/
def PoseSet (c : Call) (e : Entity) : Prop :=
  stepMade c e ≠ none ∨ branch c e.state = .idle

/-- The steps a run makes, moment by moment. -/
def steps {p : Entity} (r : Run step p) (k : Nat) : Option Bool :=
  stepMade (r.act k) (r.state k)

/-- How many steps in one direction a run has made before moment `i`. -/
def stepCount {p : Entity} (r : Run step p) (left : Bool) (i : Nat) : Nat :=
  Nat.count (fun k => steps r k = some left) i

/-- The pose of a player at rest, or one of the running poses. -/
def Posed (a : Anim) : Prop :=
  (a.sx = 80 ∧ a.sy = 34 ∧ a.frame = 0) ∨
    (a.sx = 97 + 17 * a.frame ∧ a.sy = 34)

/-- What the fields of the player are at moment `i` of a run. -/
structure Consistent {p : Entity} (r : Run step p) (i : Nat) (e : Entity) :
    Prop where
  frame_nonneg : 0 ≤ e.anim.frame
  frame_lt : e.anim.frame < 3
  sprite : ((∀ k < i, ¬ PoseSet (r.act k) (r.state k)) ∧
      e.anim.sx = 0 ∧ e.anim.sy = 0) ∨
    ((∃ k < i, PoseSet (r.act k) (r.state k)) ∧ Posed e.anim)
  xpos : e.xpos = 4 * ((stepCount r false i : Int) - stepCount r true i)
  ypos : e.ypos = 0
  dx : e.anim.dx = e.xpos
  dy : e.anim.dy = e.ypos
  hFlip : e.anim.hFlip = 1 ↔ Latest (steps r) i true

section

variable {p : Entity} {r : Run step p} {i : Nat}

theorem stepCount_succ_of_some {left : Bool} (h : steps r i = some left) :
    (stepCount r false (i + 1) : Int) - stepCount r true (i + 1) =
      (stepCount r false i : Int) - stepCount r true i +
        (if left then -1 else 1) := by
  cases left <;> simp [stepCount, Nat.count_succ, h] <;> omega

theorem stepCount_succ_of_none (left : Bool) (h : steps r i = none) :
    stepCount r left (i + 1) = stepCount r left i := by
  simp [stepCount, Nat.count_succ, h]

/-- A step turns the sprite one frame on. -/
theorem Consistent.animate {e : Entity} {left : Bool}
    (h : Consistent r i e) (hstep : steps r i = some left) :
    Consistent r (i + 1) (animate { sized e with state := .run }
      (r.act i).tick left) := by
  have hframe : (e.anim.frame + 1).tmod 3 = (e.anim.frame + 1) % 3 :=
    Int.tmod_eq_emod_of_nonneg (by have := h.frame_nonneg; omega)
  have hset : PoseSet (r.act i) (r.state i) :=
    .inl (by rw [show stepMade _ _ = _ from hstep]; exact Option.some_ne_none _)
  have hx : e.xpos + (movement left).mx =
      4 * ((stepCount r false (i + 1) : Int) - stepCount r true (i + 1)) := by
    rw [stepCount_succ_of_some hstep, h.xpos]
    cases left <;> simp [movement, runLeft, runRight] <;> omega
  constructor
  case frame_nonneg =>
    show 0 ≤ (e.anim.frame + 1).tmod (movement left).modulo
    cases left <;> exact hframe ▸ Int.emod_nonneg _ (by decide)
  case frame_lt =>
    show (e.anim.frame + 1).tmod (movement left).modulo < 3
    cases left <;> exact hframe ▸ Int.emod_lt_of_pos _ (by decide)
  case sprite =>
    refine .inr ⟨⟨i, Nat.lt_succ_self i, hset⟩, .inr ⟨?_, ?_⟩⟩
    · cases left <;> exact congrArg ((97 : Int) + ·) (Int.mul_comm _ 17)
    · cases left <;> exact congrArg ((34 : Int) + ·) (Int.mul_zero _)
  case xpos => exact hx
  case ypos =>
    show e.ypos + (movement left).my = 0
    rw [h.ypos]
    cases left <;> rfl
  case dx => rfl
  case dy => rfl
  case hFlip =>
    rw [latest_succ_of_some hstep]
    cases left with
    | false => exact iff_of_false Int.zero_ne_one Bool.false_ne_true
    | true => exact iff_of_true rfl rfl

/-- A call that makes no step and writes no pose. -/
theorem Consistent.keep {e : Entity} (h : Consistent r i e)
    (hstep : steps r i = none) (hbranch : branch (r.act i) (r.state i).state ≠ .idle)
    (s : PlayerState) :
    Consistent r (i + 1) { sized e with state := s } := by
  have hset : ¬ PoseSet (r.act i) (r.state i) := by
    rintro (hne | hidle)
    · exact hne hstep
    · exact hbranch hidle
  refine ⟨h.frame_nonneg, h.frame_lt, ?_, ?_, h.ypos, h.dx, h.dy, ?_⟩
  · rcases h.sprite with ⟨hnone, hzero⟩ | ⟨⟨k, hk, hpose⟩, hposed⟩
    · exact .inl ⟨Nat.forall_lt_succ_right.2 ⟨hnone, hset⟩, hzero⟩
    · exact .inr ⟨⟨k, by omega, hpose⟩, hposed⟩
  · rw [stepCount_succ_of_none _ hstep, stepCount_succ_of_none _ hstep]
    exact h.xpos
  · rw [latest_succ_of_none hstep]
    exact h.hFlip

/-- A call that brings the player to rest.  Its `dy` has the wrong sign, which
a `ypos` of zero hides. -/
theorem Consistent.idle {e : Entity} (h : Consistent r i e)
    (hstep : steps r i = none)
    (hbranch : branch (r.act i) (r.state i).state = .idle) :
    Consistent r (i + 1) (playerIdle { sized e with state := .idle }) := by
  have h3 : (0 : Int) < 3 := by decide
  refine ⟨Int.le_refl 0, h3, ?_, ?_, h.ypos, rfl, ?_, ?_⟩
  · exact .inr ⟨⟨i, Nat.lt_succ_self i, .inr hbranch⟩, .inl ⟨rfl, rfl, rfl⟩⟩
  · rw [stepCount_succ_of_none _ hstep, stepCount_succ_of_none _ hstep]
    exact h.xpos
  · show ((-e.ypos : Int) : ℚ) = e.ypos
    rw [h.ypos, Int.neg_zero]
  · rw [latest_succ_of_none hstep]
    exact h.hFlip

end

theorem consistent_createP1 {playerBm : Nat}
    (r : Run step (createP1 playerBm)) :
    Consistent r 0 (createP1 playerBm) := by
  have h3 : (0 : Int) < 3 := by decide
  refine ⟨Int.le_refl 0, h3, .inl ⟨?_, rfl, rfl⟩, ?_, rfl, rfl, rfl, ?_⟩
  · exact fun k hk => absurd hk (Nat.not_lt_zero k)
  · show (0 : Int) = 4 * (((0 : Nat) : Int) - ((0 : Nat) : Int))
    rfl
  · exact iff_of_false Int.zero_ne_one (not_latest_zero _ _)

/-- In every run the fields of the player agree with what the run has done. -/
theorem consistent_run (playerBm : Nat) (r : Run step (createP1 playerBm))
    (i : Nat) (hi : i ≤ r.len) : Consistent r i (r.state i) := by
  refine r.invariantAt (Consistent r) (consistent_createP1 r) ?_ hi
  intro i hi h
  rw [← Option.some.inj (r.next i hi)]
  obtain ⟨left, -, hstep, -, heq⟩ | ⟨left, hb, hstep, -, heq⟩ |
    ⟨hb, hstep, heq⟩ | ⟨hb, hstep, heq⟩ | ⟨hb, hstep, heq⟩ :=
    movePlayer1_cases (r.act i) (r.state i) <;> rw [heq]
  · exact h.animate hstep
  · exact h.keep hstep (by rw [hb]; exact Branch.noConfusion) .run
  · exact h.keep hstep (by rw [hb]; exact Branch.noConfusion) .jump
  · exact h.idle hstep hb
  · exact h.keep hstep (by rw [hb]; exact Branch.noConfusion) (r.state i).state

/-- Position, frame, sprite and flip of the player. -/
def shown (e : Entity) : Int × Int × Int × Int × Int :=
  (e.xpos, e.anim.frame, e.anim.sx, e.anim.sy, e.anim.hFlip)

/-- Two steps to the right with a throttled call between them, one to the left
and the pose at rest.  The fields agree with this history all the way. -/
theorem consistent_thereAndBackRun :
    (∀ i ≤ 5, Consistent thereAndBackRun i (thereAndBackRun.state i)) ∧
      (List.range 5).map (steps thereAndBackRun) =
        [some false, none, some false, some true, none] ∧
      stepCount thereAndBackRun false 5 = 2 ∧
      stepCount thereAndBackRun true 5 = 1 ∧
      (List.range 6).map (fun i => shown (thereAndBackRun.state i)) =
        [(0, 0, 0, 0, 0), (4, 1, 114, 34, 0), (4, 1, 114, 34, 0),
          (8, 2, 131, 34, 0), (4, 0, 97, 34, 1), (4, 0, 80, 34, 1)] :=
  ⟨fun i hi => consistent_run 0 thereAndBackRun i hi, by decide, by decide,
    by decide, by decide⟩

end Bucktoot.Ports.MovePlayer
