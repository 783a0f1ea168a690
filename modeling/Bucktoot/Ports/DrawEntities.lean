import Mathlib.Algebra.Ring.Rat
import Mathlib.Data.Rat.Cast.Order
import Bucktoot.Ports.Entities

/-!
# The renderer of `game.c`

`draw_entities` sends one drawing command for each entity that has a bitmap.
`centred` is the command that puts an entity relative to the centre of the
display with the flips its record asks for.

`draw_entities` takes half the height for the horizontal offset and half the
width for the vertical one, and `draw_bitmap` looks at the vertical flip only
without a horizontal one.  `drawEntities_eq_iff` says for which tables and
displays this makes no difference.
-/

namespace Bucktoot.Ports.DrawEntities

open Bucktoot.Ports.Entities

/-- The flags of a command: the two bits that `draw_bitmap` sets. -/
structure Flags where
  horizontal : Bool
  vertical : Bool
  deriving DecidableEq

/-- The arguments of a call of `al_draw_scaled_bitmap`. -/
structure Draw where
  bm : Nat
  sx : ℚ
  sy : ℚ
  sw : ℚ
  sh : ℚ
  dx : ℚ
  dy : ℚ
  dw : ℚ
  dh : ℚ
  flags : Flags
  deriving DecidableEq

/-- The flags `draw_bitmap` makes of a record. -/
def drawFlags (anim : Anim) : Flags :=
  if anim.hFlip ≠ 0 then { horizontal := true, vertical := false }
  else if anim.vFlip ≠ 0 then { horizontal := false, vertical := true }
  else { horizontal := false, vertical := false }

/-- `draw_bitmap`: nothing is drawn without a bitmap. -/
def drawBitmap (anim : Anim) (ox oy : Int) : Option Draw :=
  anim.bm.map (fun bm =>
    { bm := bm
      sx := anim.sx
      sy := anim.sy
      sw := anim.sw
      sh := anim.sh
      dx := anim.dx + ox
      dy := anim.dy + oy
      dw := anim.dw * anim.hScale
      dh := anim.dh * anim.vScale
      flags := drawFlags anim })

/-- `draw_entities` on a display of this size. -/
def drawEntities (width height : Nat) (blobs : Blobs) : List Draw :=
  let ox := height / 2
  let oy := width / 2
  blobs.filterMap (fun e => e.bind (fun e => drawBitmap e.anim ox oy))

/-! ## What is to be drawn -/

/-- The command for an entity with this record and bitmap. -/
def centred (width height : Nat) (anim : Anim) (bm : Nat) : Draw where
  bm := bm
  sx := anim.sx
  sy := anim.sy
  sw := anim.sw
  sh := anim.sh
  dx := anim.dx + (width / 2 : Nat)
  dy := anim.dy + (height / 2 : Nat)
  dw := anim.dw * anim.hScale
  dh := anim.dh * anim.vScale
  flags :=
    { horizontal := decide (anim.hFlip ≠ 0)
      vertical := decide (anim.vFlip ≠ 0) }

/-- One command for each entity with a bitmap, in the order of the slots. -/
def centredDraws (width height : Nat) (blobs : Blobs) : List Draw :=
  blobs.filterMap (fun e => e.bind (fun e =>
    e.anim.bm.map (centred width height e.anim)))

/-- The offsets agree, and the record does not ask for both flips. -/
structure DrawnCentred (width height : Nat) (anim : Anim) : Prop where
  offset : width / 2 = height / 2
  flip : ¬ (anim.hFlip ≠ 0 ∧ anim.vFlip ≠ 0)

/-- `drawFlags` loses the vertical flip of a record that asks for both. -/
theorem drawFlags_eq_iff (anim : Anim) :
    drawFlags anim = ⟨decide (anim.hFlip ≠ 0), decide (anim.vFlip ≠ 0)⟩ ↔
      ¬ (anim.hFlip ≠ 0 ∧ anim.vFlip ≠ 0) := by
  rw [drawFlags]
  by_cases hh : anim.hFlip = 0
  · by_cases hv : anim.vFlip = 0 <;> simp [hh, hv]
  · by_cases hv : anim.vFlip = 0 <;> simp [hh, hv]

/-- One record. -/
theorem drawBitmap_eq_iff (width height : Nat) (anim : Anim) :
    drawBitmap anim (height / 2 : Nat) (width / 2 : Nat) =
        anim.bm.map (centred width height anim) ↔
      (anim.bm ≠ none → DrawnCentred width height anim) := by
  rw [drawBitmap]
  rcases anim.bm with _ | bm
  · exact iff_of_true rfl (fun h => absurd rfl h)
  constructor
  · intro h _
    obtain ⟨-, -, -, -, -, hdx, -, -, -, hflags⟩ :=
      Draw.mk.inj (Option.some.inj h)
    refine ⟨?_, (drawFlags_eq_iff anim).1 hflags⟩
    have hox : ((height / 2 : Nat) : ℚ) = (width / 2 : Nat) := by
      rw [Int.cast_natCast] at hdx
      exact add_left_cancel hdx
    exact (Nat.cast_injective hox).symm
  · intro h
    obtain ⟨hoffset, hflip⟩ := h (Option.some_ne_none bm)
    have hflags := (drawFlags_eq_iff anim).2 hflip
    simp only [Option.map_some, centred, hoffset, hflags, Int.cast_natCast]

/-- Two commands for each element, as lists: a hole in the one is a hole in
the other. -/
theorem filterMap_eq_filterMap_iff {α β : Type*} {f g : α → Option β}
    (l : List α) (hnone : ∀ x, f x = none ↔ g x = none) :
    l.filterMap f = l.filterMap g ↔ ∀ x ∈ l, f x = g x := by
  induction l with
  | nil => exact iff_of_true rfl (fun x hx => absurd hx List.not_mem_nil)
  | cons x l ih =>
      rw [List.forall_mem_cons, ← ih]
      cases hf : f x with
      | none =>
          have hg := (hnone x).1 hf
          rw [List.filterMap_cons_none hf, List.filterMap_cons_none hg, hg]
          exact (and_iff_right rfl).symm
      | some b =>
          obtain ⟨c, hg⟩ := Option.ne_none_iff_exists'.1 (fun h =>
            Option.some_ne_none b (hf ▸ (hnone x).2 h))
          rw [List.filterMap_cons_some hf, List.filterMap_cons_some hg, hg,
            List.cons.injEq, Option.some.injEq]

/-- The renderer draws what is to be drawn exactly if half the width is half
the height and no drawn entity is flipped both ways, or nothing is drawn. -/
theorem drawEntities_eq_iff (width height : Nat) (blobs : Blobs) :
    drawEntities width height blobs = centredDraws width height blobs ↔
      ∀ e, some e ∈ blobs → e.anim.bm ≠ none →
        DrawnCentred width height e.anim := by
  rw [drawEntities, centredDraws, filterMap_eq_filterMap_iff]
  · constructor
    · intro h e he
      exact (drawBitmap_eq_iff width height e.anim).1 (h (some e) he)
    · intro h tmp htmp
      cases tmp with
      | none => rfl
      | some e => exact (drawBitmap_eq_iff width height e.anim).2 (h e htmp)
  · intro tmp
    cases tmp with
    | none => exact Iff.rfl
    | some e =>
        show drawBitmap _ _ _ = none ↔ Option.map _ _ = none
        rw [drawBitmap, Option.map_eq_none_iff, Option.map_eq_none_iff]

/-- The player of a program that has just started, on the display of
`test_game`: it is drawn 80 pixels too far to the left and too low. -/
theorem drawEntities_player :
    drawEntities 640 480 (addEntity Blobs.init (createP1 0)) ≠
      centredDraws 640 480 (addEntity Blobs.init (createP1 0)) := by
  decide +kernel

end Bucktoot.Ports.DrawEntities
