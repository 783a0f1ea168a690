import Mathlib.Data.List.Basic
import Mathlib.Data.Nat.Find
import Mathlib.Logic.Function.Basic

/-!
# Chained buckets

A hash table that links its entries by their numbers: `head` gives the entry a
bucket begins with, `next` the entry behind an entry, and the number 0 ends a
chain.  Both are reads of a memory, which can fail.

* `Walks` — the entries a chain visits;
* `Chained` — every bucket visits its members, the youngest first;
* `Chained.link` — a new entry in front of its chain keeps that;
* `search`, `Chained.search_eq` — a search along the chain of a bucket ends and
  finds the youngest entry wanted.

Nothing here mentions a particular program.
-/

namespace Bucktoot.Verified.Chains

/-- Following `next` from `i` visits these entries and then ends. -/
inductive Walks (next : Nat → Option Nat) : Nat → List Nat → Prop where
  | stop : Walks next 0 []
  | link {i j : Nat} {rest : List Nat} : i ≠ 0 → next i = some j →
      Walks next j rest → Walks next i (i :: rest)

/-- A chain sees only the links of the entries it visits. -/
theorem Walks.congr {next next' : Nat → Option Nat} {i : Nat} {l : List Nat}
    (h : Walks next i l) (heq : ∀ k ∈ l, next' k = next k) :
    Walks next' i l := by
  induction h with
  | stop => exact .stop
  | link h0 hi _ ih =>
      have hhere := heq _ List.mem_cons_self
      exact .link h0 (hhere.trans hi)
        (ih fun k hk => heq k (List.mem_cons_of_mem _ hk))

/-- The entries below `n` that belong to bucket `b`, the youngest first. -/
def members (bucket : Nat → Option Nat) (b : Nat) : Nat → List Nat
  | 0 => []
  | n + 1 =>
      if bucket n = some b then n :: members bucket b n else members bucket b n

theorem lt_of_mem_members {bucket : Nat → Option Nat} {b n i : Nat}
    (h : i ∈ members bucket b n) : i < n := by
  induction n with
  | zero => cases h
  | succ n ih =>
      rw [members] at h
      split at h
      · rcases List.mem_cons.1 h with rfl | h
        · exact Nat.lt_succ_self _
        · exact Nat.lt_succ_of_lt (ih h)
      · exact Nat.lt_succ_of_lt (ih h)

theorem length_members_le (bucket : Nat → Option Nat) (b n : Nat) :
    (members bucket b n).length ≤ n := by
  induction n with
  | zero => exact Nat.le_refl 0
  | succ n ih =>
      rw [members]
      split
      · exact Nat.succ_le_succ ih
      · exact Nat.le_succ_of_le ih

theorem members_congr {bucket bucket' : Nat → Option Nat} (b : Nat) {n : Nat}
    (h : ∀ i < n, bucket' i = bucket i) :
    members bucket' b n = members bucket b n := by
  induction n with
  | zero => rfl
  | succ n ih =>
      rw [members, members, h n (Nat.lt_succ_self n),
        ih fun i hi => h i (Nat.lt_succ_of_lt hi)]

/-- Every bucket below `buckets` visits its members below `n`. -/
def Chained (head next bucket : Nat → Option Nat) (buckets n : Nat) : Prop :=
  ∀ b < buckets, ∃ i, head b = some i ∧ Walks next i (members bucket b n)

namespace Chained

variable {head head' next next' bucket bucket' : Nat → Option Nat}
variable {buckets n : Nat}

/-- Empty chains, with entry 0 in no bucket. -/
theorem start (hhead : ∀ b < buckets, head b = some 0) (h0 : bucket 0 = none) :
    Chained head next bucket buckets 1 := by
  intro b hb
  have hnone : members bucket b 1 = [] := by simp [members, h0]
  exact ⟨0, hhead b hb, hnone ▸ .stop⟩

theorem congr (h : Chained head next bucket buckets n)
    (hhead : ∀ b < buckets, head' b = head b)
    (hnext : ∀ i < n, next' i = next i)
    (hbucket : ∀ i < n, bucket' i = bucket i) :
    Chained head' next' bucket' buckets n := by
  intro b hb
  obtain ⟨i, hi, hwalk⟩ := h b hb
  refine ⟨i, (hhead b hb).trans hi, ?_⟩
  rw [members_congr b hbucket]
  exact hwalk.congr fun k hk => hnext k (lt_of_mem_members hk)

/-- Entry `n` goes to no bucket: nothing is linked. -/
theorem skip (h : Chained head next bucket buckets n) (hn : bucket n = none)
    (hhead : ∀ b < buckets, head' b = head b)
    (hnext : ∀ i < n, next' i = next i) :
    Chained head' next' bucket buckets (n + 1) := by
  intro b hb
  obtain ⟨i, hi, hwalk⟩ := h.congr hhead hnext (fun _ _ => rfl) b hb
  have hsame : members bucket b (n + 1) = members bucket b n := by
    simp [members, hn]
  exact ⟨i, hi, hsame ▸ hwalk⟩

/-- Entry `n` becomes the head of its bucket, the old head its successor. -/
theorem link (h : Chained head next bucket buckets n) (hpos : 0 < n) {c : Nat}
    (hn : bucket n = some c) (hhead : ∀ b < buckets, b ≠ c → head' b = head b)
    (hnew : head' c = some n) (hnext : ∀ i < n, next' i = next i)
    (hold : next' n = head c) :
    Chained head' next' bucket buckets (n + 1) := by
  intro b hb
  obtain ⟨i, hi, hwalk⟩ := h b hb
  have hrest : Walks next' i (members bucket b n) :=
    hwalk.congr fun k hk => hnext k (lt_of_mem_members hk)
  by_cases hbc : b = c
  · subst hbc
    have hfront : members bucket b (n + 1) = n :: members bucket b n := by
      simp [members, hn]
    rw [hfront]
    exact ⟨n, hnew, .link (by omega) (hold.trans hi) hrest⟩
  · have hsame : members bucket b (n + 1) = members bucket b n := by
      have hne : c ≠ b := Ne.symm hbc
      simp [members, hn, hne]
    rw [hsame]
    exact ⟨i, (hhead b hb hbc).trans hi, hrest⟩

end Chained

/-- Follow the links from `i` to the first entry that `wanted` accepts, or to
the end. -/
def search (next : Nat → Option Nat) (wanted : Nat → Option Bool) :
    Nat → Nat → Option Nat
  | fuel, i =>
      if i = 0 then some 0
      else
        match fuel with
        | 0 => none
        | fuel + 1 => do
            if ← wanted i then return i
            search next wanted fuel (← next i)

/-- A chain that fits the fuel is searched to its end. -/
theorem Walks.search_eq {next : Nat → Option Nat} {wanted : Nat → Option Bool}
    {p : Nat → Bool} {i : Nat} {l : List Nat} (h : Walks next i l)
    (hread : ∀ k ∈ l, wanted k = some (p k)) {fuel : Nat}
    (hfuel : l.length ≤ fuel) :
    search next wanted fuel i = some ((l.find? p).getD 0) := by
  induction h generalizing fuel with
  | stop => unfold search; simp
  | @link i j rest h0 hnext _ ih =>
      obtain ⟨fuel, rfl⟩ : ∃ f, fuel = f + 1 :=
        ⟨fuel - 1, by simp at hfuel; omega⟩
      have hhere := hread i List.mem_cons_self
      unfold search
      by_cases hp : p i = true
      · simp [h0, hhere, hp]
      · have htail := ih (fun k hk => hread k (List.mem_cons_of_mem _ hk))
          (Nat.le_of_succ_le_succ hfuel)
        simp [h0, hhere, hp, hnext, htail]

/-- The first member wanted is the greatest entry wanted. -/
theorem find_members (bucket : Nat → Option Nat) (b : Nat) (p : Nat → Bool)
    (n : Nat) :
    ((members bucket b (n + 1)).find? p).getD 0
      = Nat.findGreatest (fun i => bucket i = some b ∧ p i = true) n := by
  induction n with
  | zero =>
      rw [Nat.findGreatest_zero]
      by_cases hb : bucket 0 = some b <;> by_cases hp : p 0 = true <;>
        simp [members, hb, hp]
  | succ n ih =>
      rw [members, Nat.findGreatest_succ]
      by_cases hb : bucket (n + 1) = some b <;>
        by_cases hp : p (n + 1) = true <;> simp [hb, hp, ih]

/-- A search of a bucket ends, and at the greatest entry wanted in it. -/
theorem Chained.search_eq {head next bucket : Nat → Option Nat}
    {buckets n b : Nat} (h : Chained head next bucket buckets (n + 1))
    (hb : b < buckets) {wanted : Nat → Option Bool} {p : Nat → Bool}
    (hread : ∀ k < n + 1, wanted k = some (p k)) :
    ∃ i, head b = some i ∧ search next wanted (n + 1) i
      = some (Nat.findGreatest (fun i => bucket i = some b ∧ p i = true)
        n) := by
  obtain ⟨i, hi, hwalk⟩ := h b hb
  refine ⟨i, hi, ?_⟩
  rw [hwalk.search_eq (fun k hk => hread k (lt_of_mem_members hk))
    (length_members_le bucket b (n + 1)), find_members]

end Bucktoot.Verified.Chains
