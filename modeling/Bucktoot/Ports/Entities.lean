import Mathlib.Data.Rat.Defs
import Bucktoot.Verified.FirstSlot

/-!
# The entities of `game.c`

The `ENTITY` and `ANIM` records of `entity.h` and the table `blobs` that the
renderer and the scripts find them in.  The fields of a record that no
modelled function reads or writes are left out.  The `float` fields are
rational numbers, so arithmetic on them is exact.

The table holds pointers.  `create_p1` is the only place that allocates an
entity and adds it once, so a slot of the model holds the record itself.
-/

namespace Bucktoot.Ports.Entities

open Bucktoot.Verified.FirstSlot

/-- `PS_IDLE` to `PS_DEAD`. -/
inductive PlayerState where
  | idle
  | run
  | jump
  | fall
  | dead
  deriving DecidableEq

/-- `ANIM`.  A bitmap is a handle. -/
structure Anim where
  frame : Int
  sx : Int
  sy : Int
  sw : Int
  sh : Int
  dx : ℚ
  dy : ℚ
  dw : ℚ
  dh : ℚ
  hFlip : Int
  vFlip : Int
  hScale : ℚ
  vScale : ℚ
  bm : Option Nat

/-- `ENTITY`. -/
structure Entity where
  id : Int
  xpos : Int
  ypos : Int
  vx : ℚ
  time : Int64
  state : PlayerState
  anim : Anim

/-- What `calloc` makes of an `ANIM`. -/
def Anim.zero : Anim where
  frame := 0
  sx := 0
  sy := 0
  sw := 0
  sh := 0
  dx := 0
  dy := 0
  dw := 0
  dh := 0
  hFlip := 0
  vFlip := 0
  hScale := 0
  vScale := 0
  bm := none

/-- What `calloc` makes of an `ENTITY`. -/
def Entity.zero : Entity where
  id := 0
  xpos := 0
  ypos := 0
  vx := 0
  time := 0
  state := .idle
  anim := .zero

/-- `PLAYER1`. -/
def player1 : Int := 1

/-- The entity `create_p1` adds. -/
def createP1 (playerBm : Nat) : Entity :=
  { Entity.zero with
    id := player1
    anim := { Anim.zero with bm := some playerBm }
    xpos := 0
    ypos := 0 }

/-! ## The table -/

/-- The table `blobs`: `none` is a null pointer. -/
abbrev Blobs := List (Option Entity)

/-- The table the program starts with. -/
def Blobs.init : Blobs := List.replicate 1000 none

/-- `add_entity`. -/
def addEntity (blobs : Blobs) (e : Entity) : Blobs :=
  fillFirst (fun tmp => tmp = none) (some e) blobs

/-- A slot holds an entity with this id. -/
def HasId (id : Int) (tmp : Option Entity) : Prop :=
  tmp.map Entity.id = some id

instance (id : Int) : DecidablePred (HasId id) :=
  fun tmp => inferInstanceAs (Decidable (tmp.map Entity.id = some id))

/-- `get_entity`: the slot of the first entity with this id. -/
def getEntity (blobs : Blobs) (id : Int) : Option Nat :=
  blobs.findIdx? (fun tmp => decide (HasId id tmp))

theorem getEntity_eq_some {blobs : Blobs} {id : Int} {i : Nat} :
    getEntity blobs id = some i ↔ IsFirst (HasId id) blobs i := by
  rw [getEntity, List.findIdx?_eq_some_iff_getElem]
  constructor
  · rintro ⟨hlt, hhit, hmiss⟩
    refine ⟨⟨blobs[i], List.getElem?_eq_getElem hlt, of_decide_eq_true hhit⟩, ?_⟩
    intro j hj tmp htmp
    obtain ⟨hjlt, rfl⟩ := List.getElem?_eq_some_iff.1 htmp
    simpa using hmiss j hj
  · intro h
    have hlt := h.lt_length
    obtain ⟨⟨tmp, htmp, hhit⟩, hmiss⟩ := h
    obtain ⟨_, rfl⟩ := List.getElem?_eq_some_iff.1 htmp
    refine ⟨hlt, decide_eq_true hhit, ?_⟩
    intro j hj
    simpa using hmiss j hj blobs[j] (List.getElem?_eq_getElem (by omega))

/-- An entity with a new id is found where it was added. -/
theorem getEntity_set {blobs : Blobs} {id : Int} {i : Nat} {e : Entity}
    (hnew : ∀ tmp ∈ blobs, ¬ HasId id tmp) (hi : i < blobs.length)
    (hid : e.id = id) : getEntity (blobs.set i (some e)) id = some i := by
  apply getEntity_eq_some.2
  refine ⟨⟨some e, List.getElem?_set_self hi, congrArg some hid⟩, ?_⟩
  intro j hj tmp htmp
  rw [List.getElem?_set_ne (by omega)] at htmp
  exact hnew tmp (List.mem_of_getElem? htmp)

end Bucktoot.Ports.Entities
