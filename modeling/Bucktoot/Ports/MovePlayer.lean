import Mathlib.Tactic.NormNum
import Bucktoot.Verified.StepSystem
import Bucktoot.Ports.Entities

/-!
# The player script `move_code.c`

`move_player1` is called once for each frame that is drawn.  A call is one
step of the player entity: which keys are held and what the clock says decide
it.  `branch` says which arm of the switch a call takes and
`movePlayer1_cases` what each of the arms makes of the entity; later proofs
use that and not the functions.

* `stepMade` — whether `run_animation` moves the player in a call, and which
  way;
* `callMovePlayer1` — the call with its look-up in the table of entities, and
  `exists_playerRun`: what happens to the table is what happens to the player.
-/

namespace Bucktoot.Ports.MovePlayer

open Bucktoot.Verified.FirstSlot
open Bucktoot.Verified.StepSystem
open Bucktoot.Ports.Entities

/-! ## The functions -/

/-- The keys the script asks for. -/
inductive Key where
  | right
  | left
  | z
  deriving DecidableEq

/-- What a call finds: the answers of `is_key_down`, and the clock as
`run_animation` reads it.  `move_player1` reads the clock twice on its own,
for a loop over no entries that would use it. -/
structure Call where
  isKeyDown : Key → Bool
  tick : Int64

/-- `MOVEMENT`, as far as `run_animation` reads it. -/
structure Movement where
  sx : Int
  sy : Int
  xskip : Int
  yskip : Int
  mx : Int
  my : Int
  modulo : Int
  flipH : Int
  scale : ℚ

/-- `run_right`. -/
def runRight : Movement where
  sx := 80 + 17
  sy := 34
  xskip := 17
  yskip := 0
  mx := 4
  my := 0
  modulo := 3
  flipH := 0
  scale := 3

/-- `run_left`. -/
def runLeft : Movement where
  sx := 80 + 17
  sy := 34
  xskip := 17
  yskip := 0
  mx := -4
  my := 0
  modulo := 3
  flipH := 1
  scale := 3

/-- The movement `run_animation` picks. -/
def movement (left : Bool) : Movement := if left then runLeft else runRight

/-- `run_animation` behind its throttle. -/
def animate (e : Entity) (tick : Int64) (left : Bool) : Entity :=
  let m := movement left
  let frame := (e.anim.frame + 1).tmod m.modulo
  { e with
    time := tick
    vx := e.vx + 10
    xpos := e.xpos + m.mx
    ypos := e.ypos + m.my
    anim := { e.anim with
      sx := m.sx + frame * m.xskip
      sy := m.sy + frame * m.yskip
      dx := (e.xpos + m.mx : Int)
      dy := (e.ypos + m.my : Int)
      hFlip := m.flipH
      dw := e.anim.sw
      dh := e.anim.sh
      hScale := m.scale
      vScale := m.scale
      frame := frame } }

/-- `run_animation` returns at once if the clock has not moved on enough. -/
def Throttled (e : Entity) (tick : Int64) : Prop := tick - e.time < 15

instance (e : Entity) (tick : Int64) : Decidable (Throttled e tick) :=
  inferInstanceAs (Decidable (tick - e.time < 15))

/-- `run_animation`. -/
def runAnimation (e : Entity) (tick : Int64) (left : Bool) : Entity :=
  if Throttled e tick then e else animate e tick left

/-- `player_idle`. -/
def playerIdle (e : Entity) : Entity :=
  { e with
    anim := { e.anim with
      sx := 80
      sy := 34
      frame := 0
      dx := e.xpos
      dy := (-e.ypos : Int)
      dw := e.anim.sw
      dh := e.anim.sh
      hScale := 3
      vScale := 3 } }

/-- The size of the sprite, which every call sets. -/
def sized (e : Entity) : Entity :=
  { e with anim := { e.anim with sw := 16, sh := 16 } }

/-- `move_player1` once `get_entity` has found the player. -/
def movePlayer1 (c : Call) (player : Entity) : Entity :=
  let e := sized player
  match e.state with
  | .idle =>
      if c.isKeyDown .right then
        runAnimation { e with state := .run } c.tick false
      else if c.isKeyDown .left then
        runAnimation { e with state := .run } c.tick true
      else if c.isKeyDown .z then { e with state := .jump }
      else playerIdle e
  | .run =>
      if c.isKeyDown .right then
        runAnimation { e with state := .run } c.tick false
      else if c.isKeyDown .left then
        runAnimation { e with state := .run } c.tick true
      else playerIdle { e with state := .idle }
  | .jump | .fall | .dead => e

/-- `move_player1`: without a player nothing happens. -/
def callMovePlayer1 (c : Call) (blobs : Blobs) : Blobs :=
  match getEntity blobs player1 with
  | some i => blobs.modify i (Option.map (movePlayer1 c))
  | none => blobs

/-- The player as a system: every call is possible. -/
def step (e : Entity) (c : Call) : Option Entity := some (movePlayer1 c e)

/-! ## What a call does -/

/-- The arms of the switch. -/
inductive Branch where
  | run (left : Bool)
  | jump
  | idle
  | none
  deriving DecidableEq

/-- The arm a call takes. -/
def branch (c : Call) : PlayerState → Branch
  | .idle =>
      if c.isKeyDown .right then .run false
      else if c.isKeyDown .left then .run true
      else if c.isKeyDown .z then .jump
      else .idle
  | .run =>
      if c.isKeyDown .right then .run false
      else if c.isKeyDown .left then .run true
      else .idle
  | .jump | .fall | .dead => .none

/-- The step `run_animation` makes in a call, if it does make one: to the left
or not. -/
def stepMade (c : Call) (e : Entity) : Option Bool :=
  match branch c e.state with
  | .run left => if Throttled e c.tick then none else some left
  | _ => none

theorem movePlayer1_eq (c : Call) (e : Entity) :
    movePlayer1 c e = match branch c e.state with
      | .run left => runAnimation { sized e with state := .run } c.tick left
      | .jump => { sized e with state := .jump }
      | .idle => playerIdle { sized e with state := .idle }
      | .none => sized e := by
  obtain ⟨id, xpos, ypos, vx, time, state, anim⟩ := e
  cases state with
  | idle =>
      simp only [movePlayer1, branch, sized]
      split
      · rfl
      · split
        · rfl
        · split <;> rfl
  | run =>
      simp only [movePlayer1, branch, sized]
      split
      · rfl
      · split <;> rfl
  | jump => rfl
  | fall => rfl
  | dead => rfl

/-- A call makes a step, or is throttled in the middle of a run, or takes one
of the other arms. -/
theorem movePlayer1_cases (c : Call) (e : Entity) :
    (∃ left, branch c e.state = .run left ∧ stepMade c e = some left ∧
      ¬ Throttled e c.tick ∧
      movePlayer1 c e = animate { sized e with state := .run } c.tick left) ∨
    (∃ left, branch c e.state = .run left ∧ stepMade c e = none ∧
      Throttled e c.tick ∧ movePlayer1 c e = { sized e with state := .run }) ∨
    (branch c e.state = .jump ∧ stepMade c e = none ∧
      movePlayer1 c e = { sized e with state := .jump }) ∨
    (branch c e.state = .idle ∧ stepMade c e = none ∧
      movePlayer1 c e = playerIdle { sized e with state := .idle }) ∨
    (branch c e.state = .none ∧ stepMade c e = none ∧
      movePlayer1 c e = sized e) := by
  rw [movePlayer1_eq, stepMade]
  cases hbranch : branch c e.state with
  | run left =>
      by_cases hthrottled : Throttled e c.tick
      · refine .inr (.inl ⟨left, rfl, if_pos hthrottled, hthrottled, ?_⟩)
        exact if_pos hthrottled
      · refine .inl ⟨left, rfl, if_neg hthrottled, hthrottled, ?_⟩
        exact if_neg hthrottled
  | jump => exact .inr (.inr (.inl ⟨rfl, rfl, rfl⟩))
  | idle => exact .inr (.inr (.inr (.inl ⟨rfl, rfl, rfl⟩)))
  | none => exact .inr (.inr (.inr (.inr ⟨rfl, rfl, rfl⟩)))

/-! ## The table -/

@[simp] theorem movePlayer1_id (c : Call) (e : Entity) :
    (movePlayer1 c e).id = e.id := by
  obtain ⟨left, -, -, -, heq⟩ | ⟨left, -, -, -, heq⟩ | ⟨-, -, heq⟩ |
    ⟨-, -, heq⟩ | ⟨-, -, heq⟩ := movePlayer1_cases c e <;> rw [heq] <;> rfl

/-- A table in which the player is the only entity with its id. -/
theorem callMovePlayer1_set {blobs : Blobs} {i : Nat} {e : Entity} (c : Call)
    (hnew : ∀ tmp ∈ blobs, ¬ HasId player1 tmp) (hi : i < blobs.length)
    (hid : e.id = player1) :
    callMovePlayer1 c (blobs.set i (some e)) =
      blobs.set i (some (movePlayer1 c e)) := by
  rw [callMovePlayer1, getEntity_set hnew hi hid]
  show (blobs.set i (some e)).modify i (Option.map (movePlayer1 c)) = _
  rw [List.modify_eq_set_getElem?, List.getElem?_set_self hi]
  exact List.set_set ..

/-- The table as a system. -/
def tableStep (blobs : Blobs) (c : Call) : Option Blobs :=
  some (callMovePlayer1 c blobs)

/-- A run over a table that a player has been added to is a run of that
player, in the slot it got. -/
theorem exists_playerRun {blobs : Blobs} {p : Entity} {i : Nat}
    (hnew : ∀ tmp ∈ blobs, ¬ HasId player1 tmp) (hid : p.id = player1)
    (hfree : IsFirst (fun tmp => tmp = none) blobs i)
    (r : Run tableStep (addEntity blobs p)) :
    ∃ q : Run step p, q.len = r.len ∧ q.act = r.act ∧
      ∀ n ≤ r.len, r.state n = blobs.set i (some (q.state n)) := by
  have hi := hfree.lt_length
  let follow : Nat → Entity := fun n =>
    Nat.rec p (fun k e => movePlayer1 (r.act k) e) n
  have hids : ∀ n, (follow n).id = player1 := by
    intro n
    induction n with
    | zero => exact hid
    | succ n ih => exact (movePlayer1_id _ _).trans ih
  let q : Run step p :=
    { len := r.len
      state := follow
      act := r.act
      start := rfl
      next := fun _ _ => rfl }
  refine ⟨q, rfl, rfl, fun n hn => ?_⟩
  apply r.invariantAt (fun n t => t = blobs.set i (some (follow n))) _ _ hn
  · exact fillFirst_of_isFirst (some p) hfree
  · intro k hk hstate
    have hnext := Option.some.inj (r.next k hk)
    rw [← hnext, hstate]
    exact callMovePlayer1_set _ hnew hi (hids k)

end Bucktoot.Ports.MovePlayer
