import Mathlib.Algebra.BigOperators.Group.List.Basic
import Mathlib.Algebra.Ring.Int.Defs
import Mathlib.Algebra.Order.BigOperators.Group.List
import Mathlib.Tactic.Push

/-!
# Sums that are limited after every addition

`satFrom lo hi a cs` adds the numbers `cs` to `a` one after the other and puts
the result back between `lo` and `hi` each time.  Such a sum may depend on the
order of the numbers: what is cut off at one limit is missing when the numbers
of the other sign come.

`satFrom_eq_clamp_iff` says when it does not: every order gives the exact sum,
limited once, exactly if the numbers have one sign or neither the positive
ones nor the negative ones alone go over a limit.  It is stated for numbers
that belong to things, so that a client can reorder the things.
-/

namespace Bucktoot.Verified.Saturate

variable (lo hi : Int)

/-- Put a number between the limits. -/
def clamp (a : Int) : Int := max lo (min hi a)

/-- Add the numbers to `a`, with the limits applied after each addition. -/
def satFrom (a : Int) (cs : List Int) : Int :=
  cs.foldl (fun acc c => clamp lo hi (acc + c)) a

/-- The sum of the numbers that are not negative. -/
def gains (cs : List Int) : Int := (cs.filter (fun c => 0 ≤ c)).sum

/-- The sum of the negative numbers. -/
def losses (cs : List Int) : Int := (cs.filter (fun c => c < 0)).sum

/-- The numbers have one sign, or neither sign alone goes over a limit. -/
def OrderFree (cs : List Int) : Prop :=
  (∀ c ∈ cs, 0 ≤ c) ∨ (∀ c ∈ cs, c ≤ 0) ∨ (gains cs ≤ hi ∧ lo ≤ losses cs)

/-! ## Gains and losses -/

theorem gains_cons (c : Int) (cs : List Int) :
    gains (c :: cs) = if 0 ≤ c then c + gains cs else gains cs := by
  unfold gains
  by_cases hc : 0 ≤ c <;> simp [hc]

theorem losses_cons (c : Int) (cs : List Int) :
    losses (c :: cs) = if 0 ≤ c then losses cs else c + losses cs := by
  unfold losses
  by_cases hc : 0 ≤ c
  · simp [hc, Int.not_lt.2 hc]
  · simp [hc, Int.not_le.1 hc]

theorem gains_nonneg (cs : List Int) : 0 ≤ gains cs := by
  induction cs with
  | nil => exact Int.le_refl 0
  | cons c cs ih =>
      rw [gains_cons]
      split <;> omega

theorem losses_nonpos (cs : List Int) : losses cs ≤ 0 := by
  induction cs with
  | nil => exact Int.le_refl 0
  | cons c cs ih =>
      rw [losses_cons]
      split <;> omega

theorem gains_add_losses (cs : List Int) : gains cs + losses cs = cs.sum := by
  induction cs with
  | nil => rfl
  | cons c cs ih =>
      rw [gains_cons, losses_cons, List.sum_cons, ← ih]
      split <;> omega

theorem sum_nonpos {cs : List Int} (h : ∀ c ∈ cs, c ≤ 0) : cs.sum ≤ 0 := by
  induction cs with
  | nil => exact Int.le_refl 0
  | cons c cs ih =>
      have hc := h c List.mem_cons_self
      have hrest := ih (fun d hd => h d (List.mem_cons_of_mem c hd))
      rw [List.sum_cons]
      omega

theorem le_gains {c : Int} {cs : List Int} (h : c ∈ cs) : c ≤ gains cs := by
  induction cs with
  | nil => cases h
  | cons d cs ih =>
      have hg := gains_nonneg cs
      rw [gains_cons]
      rcases List.mem_cons.1 h with rfl | h
      · split <;> omega
      · have := ih h
        split <;> omega

theorem losses_le {c : Int} {cs : List Int} (h : c ∈ cs) : losses cs ≤ c := by
  induction cs with
  | nil => cases h
  | cons d cs ih =>
      have hl := losses_nonpos cs
      rw [losses_cons]
      rcases List.mem_cons.1 h with rfl | h
      · split <;> omega
      · have := ih h
        split <;> omega

/-! ## One sign at a time -/

variable {lo hi}

/-- The numbers have one sign. -/
def OneSign (cs : List Int) : Prop := (∀ c ∈ cs, 0 ≤ c) ∨ (∀ c ∈ cs, c ≤ 0)

theorem OneSign.tail {c : Int} {cs : List Int} (h : OneSign (c :: cs)) :
    OneSign cs := by
  rcases h with h | h
  · exact .inl (fun d hd => h d (List.mem_cons_of_mem c hd))
  · exact .inr (fun d hd => h d (List.mem_cons_of_mem c hd))

/-- The first one goes where the others go. -/
theorem OneSign.head {c : Int} {cs : List Int} (h : OneSign (c :: cs)) :
    0 ≤ c ∧ 0 ≤ cs.sum ∨ c ≤ 0 ∧ cs.sum ≤ 0 := by
  rcases h with h | h
  · exact .inl ⟨h c List.mem_cons_self,
      List.sum_nonneg (fun d hd => h d (List.mem_cons_of_mem c hd))⟩
  · exact .inr ⟨h c List.mem_cons_self,
      sum_nonpos (fun d hd => h d (List.mem_cons_of_mem c hd))⟩

/-- Such numbers are limited at one end only, and once. -/
theorem satFrom_of_oneSign {a : Int} (ha : lo ≤ a ∧ a ≤ hi) {cs : List Int}
    (h : OneSign cs) : satFrom lo hi a cs = clamp lo hi (a + cs.sum) := by
  induction cs generalizing a with
  | nil =>
      simp only [satFrom, List.foldl_nil, List.sum_nil]
      unfold clamp
      omega
  | cons c cs ih =>
      have hsign := h.head
      have hstep := ih (a := clamp lo hi (a + c)) (by unfold clamp; omega) h.tail
      rw [List.sum_cons]
      apply hstep.trans
      unfold clamp
      omega

/-- While no partial sum can reach a limit, the limits do nothing. -/
theorem satFrom_of_room {a : Int} {cs : List Int} (hhi : a + gains cs ≤ hi)
    (hlo : lo ≤ a + losses cs) : satFrom lo hi a cs = a + cs.sum := by
  induction cs generalizing a with
  | nil => simp [satFrom]
  | cons c cs ih =>
      have hg := gains_nonneg cs
      have hl := losses_nonpos cs
      rw [gains_cons] at hhi
      rw [losses_cons] at hlo
      have hroom : clamp lo hi (a + c) = a + c := by
        unfold clamp
        split at hhi <;> split at hlo <;> omega
      have hstep := ih (a := a + c) (by split at hhi <;> omega)
        (by split at hlo <;> omega)
      rw [List.sum_cons, ← Int.add_assoc, ← hstep]
      exact congrArg (fun x => satFrom lo hi x cs) hroom

theorem satFrom_append (a : Int) (cs ds : List Int) :
    satFrom lo hi a (cs ++ ds) = satFrom lo hi (satFrom lo hi a cs) ds :=
  List.foldl_append

/-! ## Reordering -/

theorem gains_perm {cs ds : List Int} (h : cs.Perm ds) :
    gains cs = gains ds :=
  (h.filter _).sum_eq

theorem losses_perm {cs ds : List Int} (h : cs.Perm ds) :
    losses cs = losses ds :=
  (h.filter _).sum_eq

theorem orderFree_perm {cs ds : List Int} (h : cs.Perm ds)
    (hfree : OrderFree lo hi cs) : OrderFree lo hi ds := by
  unfold OrderFree
  rw [← gains_perm h, ← losses_perm h]
  rcases hfree with hpos | hneg | hroom
  · exact .inl (fun c hc => hpos c (h.mem_iff.2 hc))
  · exact .inr (.inl (fun c hc => hneg c (h.mem_iff.2 hc)))
  · exact .inr (.inr hroom)

theorem satFrom_of_orderFree (hlo : lo < 0) (hhi : 0 < hi) {cs : List Int}
    (h : OrderFree lo hi cs) : satFrom lo hi 0 cs = clamp lo hi cs.sum := by
  rcases h with hpos | hneg | ⟨hg, hl⟩
  · rw [satFrom_of_oneSign (a := 0) (by omega) (.inl hpos), Int.zero_add]
  · rw [satFrom_of_oneSign (a := 0) (by omega) (.inr hneg), Int.zero_add]
  · have hgain := gains_nonneg cs
    have hloss := losses_nonpos cs
    have hsum := gains_add_losses cs
    rw [satFrom_of_room (by omega) (by omega)]
    unfold clamp
    omega

/-! ## The two extreme orders -/

section Orders

variable {α : Type*} (f : α → Int)

theorem gains_map (l : List α) :
    gains (l.map f) = ((l.filter (fun a => 0 ≤ f a)).map f).sum := by
  rw [gains, List.filter_map]
  rfl

theorem losses_map (l : List α) :
    losses (l.map f) = ((l.filter (fun a => f a < 0)).map f).sum := by
  rw [losses, List.filter_map]
  rfl

theorem oneSign_gains (l : List α) :
    OneSign ((l.filter (fun a => 0 ≤ f a)).map f) := by
  refine .inl (fun c hc => ?_)
  simp only [List.mem_map, List.mem_filter, decide_eq_true_eq] at hc
  obtain ⟨a, ⟨-, ha⟩, rfl⟩ := hc
  exact ha

theorem oneSign_losses (l : List α) :
    OneSign ((l.filter (fun a => f a < 0)).map f) := by
  refine .inr (fun c hc => ?_)
  simp only [List.mem_map, List.mem_filter, decide_eq_true_eq] at hc
  obtain ⟨a, ⟨-, ha⟩, rfl⟩ := hc
  omega

/-- One sign first, then the other. -/
theorem satFrom_two_signs (hlo : lo < 0) (hhi : 0 < hi) {l₁ l₂ : List α}
    (h₁ : OneSign (l₁.map f)) (h₂ : OneSign (l₂.map f)) :
    satFrom lo hi 0 ((l₁ ++ l₂).map f) =
      clamp lo hi (clamp lo hi (l₁.map f).sum + (l₂.map f).sum) := by
  rw [List.map_append, satFrom_append,
    satFrom_of_oneSign (a := 0) (by omega) h₁, Int.zero_add]
  exact satFrom_of_oneSign (by unfold clamp; omega) h₂

/-- **When the order does not matter.**  Every order gives the exact sum,
limited once, exactly if the numbers have one sign or neither sign alone goes
over a limit. -/
theorem satFrom_eq_clamp_iff (hlo : lo < 0) (hhi : 0 < hi) (l : List α) :
    (∀ l' : List α, l'.Perm l →
      satFrom lo hi 0 (l'.map f) = clamp lo hi (l.map f).sum) ↔
      OrderFree lo hi (l.map f) := by
  constructor
  · intro hall
    have hneg : l.filter (fun a => f a < 0) =
        l.filter (fun a => !decide (0 ≤ f a)) :=
      List.filter_congr (fun a _ => by
        rw [← decide_not]
        exact decide_eq_decide.2 Int.not_le.symm)
    have hsplit : (l.filter (fun a => 0 ≤ f a) ++
        l.filter (fun a => f a < 0)).Perm l := by
      rw [hneg]
      exact List.filter_append_perm _ l
    have hup := hall _ hsplit
    have hdown := hall _ (List.perm_append_comm.trans hsplit)
    rw [satFrom_two_signs f hlo hhi (oneSign_gains f l) (oneSign_losses f l),
      ← gains_map, ← losses_map, ← gains_add_losses] at hup
    rw [satFrom_two_signs f hlo hhi (oneSign_losses f l) (oneSign_gains f l),
      ← gains_map, ← losses_map, ← gains_add_losses] at hdown
    unfold clamp at hup hdown
    by_contra hfree
    unfold OrderFree at hfree
    push Not at hfree
    obtain ⟨⟨c, hc, hneg⟩, ⟨d, hd, hpos⟩, hroom⟩ := hfree
    have hc' := losses_le hc
    have hd' := le_gains hd
    by_cases hg : gains (l.map f) ≤ hi
    · have hl := hroom hg
      omega
    · omega
  · intro hfree l' hperm
    have hmap := hperm.map f
    rw [satFrom_of_orderFree hlo hhi (orderFree_perm hmap.symm hfree),
      hmap.sum_eq]

end Orders

end Bucktoot.Verified.Saturate
