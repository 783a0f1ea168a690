import Mathlib.Algebra.Order.Group.Abs
import Mathlib.Algebra.Order.Group.Int

/-!
# Events along a run

`f k` is what happened at moment `k` of a run, `none` where nothing did.

* `Quiet f i`, `Latest f i b` — nothing happened before moment `i`, or the
  latest thing that did is `b`, with what one more moment makes of them;
* `abs_sub_le_of_spaced` — a quantity that moves by at most `amount` at a
  time, and only at times `gap` apart, does not get far in a given time.

Nothing here mentions a particular program.
-/

namespace Bucktoot.Verified.Events

variable {β : Type*} {f : Nat → Option β} {i : Nat} {a b : β}

/-- Nothing happened before moment `i`. -/
def Quiet (f : Nat → Option β) (i : Nat) : Prop := ∀ k < i, f k = none

/-- The latest thing that happened before moment `i` is `b`. -/
def Latest (f : Nat → Option β) (i : Nat) (b : β) : Prop :=
  ∃ k < i, f k = some b ∧ ∀ m, k < m → m < i → f m = none

theorem quiet_zero (f : Nat → Option β) : Quiet f 0 :=
  fun k hk => absurd hk (Nat.not_lt_zero k)

theorem not_latest_zero (f : Nat → Option β) (b : β) : ¬ Latest f 0 b := by
  rintro ⟨k, hk, -⟩
  exact Nat.not_lt_zero k hk

theorem Quiet.succ (h : Quiet f i) (hi : f i = none) : Quiet f (i + 1) :=
  Nat.forall_lt_succ_right.2 ⟨h, hi⟩

/-- Where something happens, it is the latest thing from then on. -/
theorem latest_succ_of_some (hi : f i = some a) :
    Latest f (i + 1) b ↔ a = b := by
  constructor
  · rintro ⟨k, hk, hkb, hnone⟩
    rcases Nat.lt_or_eq_of_le (Nat.le_of_lt_succ hk) with hlt | rfl
    · rw [hnone i hlt (Nat.lt_succ_self i)] at hi
      cases hi
    · rw [hi] at hkb
      exact Option.some.inj hkb
  · rintro rfl
    exact ⟨i, Nat.lt_succ_self i, hi, fun m hm hmi => by omega⟩

/-- Where nothing happens, the latest thing stays what it was. -/
theorem latest_succ_of_none (hi : f i = none) :
    Latest f (i + 1) b ↔ Latest f i b := by
  constructor
  · rintro ⟨k, hk, hkb, hnone⟩
    rcases Nat.lt_or_eq_of_le (Nat.le_of_lt_succ hk) with hlt | rfl
    · exact ⟨k, hlt, hkb, fun m hkm hm => hnone m hkm (by omega)⟩
    · rw [hi] at hkb
      cases hkb
  · rintro ⟨k, hk, hkb, hnone⟩
    refine ⟨k, by omega, hkb, ?_⟩
    intro m hkm hm
    rcases Nat.lt_or_eq_of_le (Nat.le_of_lt_succ hm) with hlt | rfl
    · exact hnone m hkm hlt
    · exact hi

/-- The latest thing is not in front of anything that happened. -/
theorem Latest.exists_ge {j : Nat} (hb : Latest f i b) (hj : j < i)
    (ha : f j = some a) : ∃ k, j ≤ k ∧ k < i ∧ f k = some b := by
  obtain ⟨k, hk, hkb, hnone⟩ := hb
  refine ⟨k, Nat.le_of_not_lt (fun hlt => ?_), hk, hkb⟩
  rw [hnone j hlt hj] at ha
  cases ha

/-- A quantity `x` that moves by at most `amount` at a time, and only at
moments whose times `t` are `gap` apart: what it can do between the times `t₁`
and `t₂`. -/
theorem abs_sub_le_of_spaced {x t : Nat → Int} {amount gap t₁ t₂ : Int}
    {i j : Nat} (hgap : 0 < gap) (hij : i ≤ j) (ht : t₁ ≤ t₂)
    (hmove : ∀ k, i ≤ k → k < j → |x (k + 1) - x k| ≤ amount)
    (hspaced : ∀ k l, i ≤ k → k < l → l < j → x (k + 1) ≠ x k →
      x (l + 1) ≠ x l → t k + gap ≤ t l)
    (hbetween : ∀ k, i ≤ k → k < j → t₁ ≤ t k ∧ t k ≤ t₂)
    (hamount : 0 ≤ amount) :
    |x j - x i| ≤ amount * ((t₂ - t₁) / gap + 1) := by
  have hone : ∀ s, t₁ ≤ s → 0 ≤ (s - t₁) / gap :=
    fun s hs => Int.ediv_nonneg (by omega) hgap.le
  -- the last move so far, at `l`, pays for all moves up to it
  have hpaid : ∀ n, i ≤ n → n ≤ j → x n = x i ∨ ∃ l, i ≤ l ∧ l < n ∧
      x (l + 1) ≠ x l ∧ |x n - x i| ≤ amount * ((t l - t₁) / gap + 1) := by
    intro n hin
    induction n, hin using Nat.le_induction with
    | base => exact fun _ => .inl rfl
    | succ n hin ih =>
        intro hn
        by_cases hmoved : x (n + 1) = x n
        · rcases ih (by omega) with hsame | ⟨l, hil, hln, hl, hle⟩
          · exact .inl (hmoved.trans hsame)
          · refine .inr ⟨l, hil, by omega, hl, ?_⟩
            rw [hmoved]
            exact hle
        · refine .inr ⟨n, hin, by omega, hmoved, ?_⟩
          have hstep := hmove n hin (by omega)
          have htn := (hbetween n hin (by omega)).1
          rcases ih (by omega) with hsame | ⟨l, hil, hln, hl, hle⟩
          · rw [← hsame]
            calc |x (n + 1) - x n| ≤ amount * 1 := by rwa [mul_one]
              _ ≤ amount * ((t n - t₁) / gap + 1) :=
                Int.mul_le_mul_of_nonneg_left
                  (by have := hone _ htn; omega) hamount
          · have hquot : (t l - t₁) / gap + 1 ≤ (t n - t₁) / gap := by
              rw [← Int.add_mul_ediv_right _ 1 hgap.ne']
              apply Int.ediv_le_ediv hgap
              have := hspaced l n hil hln (by omega) hl hmoved
              omega
            calc |x (n + 1) - x i|
                ≤ |x (n + 1) - x n| + |x n - x i| := abs_sub_le _ _ _
              _ ≤ amount + amount * ((t l - t₁) / gap + 1) :=
                Int.add_le_add hstep hle
              _ ≤ amount + amount * ((t n - t₁) / gap) :=
                Int.add_le_add_left
                  (Int.mul_le_mul_of_nonneg_left hquot hamount) _
              _ = amount * ((t n - t₁) / gap + 1) := by
                rw [Int.mul_add, mul_one, Int.add_comm]
  rcases hpaid j hij (Nat.le_refl j) with hsame | ⟨l, hil, hlj, -, hle⟩
  · rw [hsame, Int.sub_self, abs_zero]
    exact Int.mul_nonneg hamount (by have := hone _ ht; omega)
  · apply hle.trans
    apply Int.mul_le_mul_of_nonneg_left _ hamount
    have htl := (hbetween l hil hlj).2
    have hquot : (t l - t₁) / gap ≤ (t₂ - t₁) / gap :=
      Int.ediv_le_ediv hgap (by omega)
    omega

end Bucktoot.Verified.Events
