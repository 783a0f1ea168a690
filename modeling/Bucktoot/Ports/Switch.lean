import Bucktoot.Ports.GenExprSound
import Bucktoot.Verified.Ranges

/-!
# `switch`

The labels of a `switch` are ranges of values.  The compiler sorts them, refuses
a value that has two labels, and emits the jumps of a binary search that ends in
a linear scan of at most four labels.

* `Case`, `Jumps`, `gcase`, `switchCode` — the statement and its jumps;
* `run` — where they lead when the program runs;
* `switch_jumps` — to the label of the value, or to the default.
-/

namespace Bucktoot.Ports.Switch

open Bucktoot.Verified
open Bucktoot.Verified.Words
open Bucktoot.Verified.Ranges
open Bucktoot.Ports.Libtcc1
open Bucktoot.Ports.GenOp

/-- `struct case_t` -/
structure Case where
  v1 : DWord
  v2 : DWord
  sym : Nat
  deriving DecidableEq, Repr

/-- Jumps to a label, to the default, and jumps on a test. -/
inductive Jumps where
  | exit
  | jump (sym : Nat)
  | test (v : Value) (yes no : Jumps)
  deriving DecidableEq, Repr

/-- The label as an operand. -/
def pushLabel (ll : Bool) (v : DWord) : SValue :=
  if ll then ⟨.llong false, .const v⟩ else vpushi (low v)

/-- A comparison of the value with a label. -/
def genTest (ty : Pointees) (op : Op) (a : SValue) (v : DWord) :
    Except String Value :=
  (genOp ty false op a (pushLabel a.t.isLLong v)).map SValue.v

/-- The linear scan of `gcase`. -/
def scan (ty : Pointees) (a : SValue) : List Case → Except String Jumps
  | [] => .ok .exit
  | p :: rest =>
      if p.v1 = p.v2 then do
        let eq ← genTest ty .eq a p.v2
        let next ← scan ty a rest
        .ok (.test eq (.jump p.sym) next)
      else do
        let le ← genTest ty .le a p.v2
        let ge ← genTest ty .ge a p.v1
        let next ← scan ty a rest
        .ok (.test le (.test ge (.jump p.sym) next) next)

/-- `gcase`.  Behind each part comes the jump to the default. -/
def gcase (ty : Pointees) (a : SValue) (base : List Case) : Except String Jumps :=
  if h : 4 < base.length then
    let p := base[base.length / 2]
    do
      let le ← genTest ty .le a p.v2
      let ge ← genTest ty .ge a p.v1
      let left ← gcase ty a (base.take (base.length / 2))
      let right ← gcase ty a (base.drop (base.length / 2 + 1))
      .ok (.test le (.test ge (.jump p.sym) left) right)
  else scan ty a base
termination_by base.length
decreasing_by
  · rw [List.length_take]
    omega
  · rw [List.length_drop]
    omega

/-- Two neighbours of the sorted table overlap. -/
def duplicate : List Case → Bool
  | p :: q :: rest => decide (p.v2.toInt ≥ q.v1.toInt) || duplicate (q :: rest)
  | _ => false

/-- The end of a `switch`: `case_cmp` compares the lower bounds with their sign,
and a value of 64 bits is compared the same way. -/
def switchCode (ty : Pointees) (a : SValue) (cases : List Case) :
    Except String Jumps :=
  let table := cases.mergeSort fun p q => decide (p.v1.toInt ≤ q.v1.toInt)
  if duplicate table then .error "duplicate case value"
  else gcase ty (if a.t.isLLong then ⟨.llong false, a.v⟩ else a) table

/-- Where the jumps lead: to a label, or to the default. -/
def run (env : Env) : Jumps → Option (Option Nat)
  | .exit => some none
  | .jump sym => some (some sym)
  | .test v yes no => do
      let l ← v.word env
      if low l ≠ 0 then run env yes else run env no

/-! ## One comparison -/

/-- The integer that the value is compared as. -/
def key (t : CType) (x : Int) : Int := if t.isLLong then wrap false 64 x else x

/-- The label is a value of the type that the comparison is done in. -/
def FitsLabel (t : CType) (v : DWord) : Prop :=
  t.isLLong = true ∨ InRange (decide (t = .int true)) 32 v.toInt

section Tests

variable (ty : Pointees) {env : Env} {op : Op} {a : SValue} {v : DWord} {k : Int}

/-- The types that a value is compared in. -/
def Compared (t : CType) : Prop := t.isPtr = false ∧ t ≠ .llong true

variable (env) in
theorem pushLabel_holds (ll : Bool) (v : DWord) :
    ∃ y, Holds env (pushLabel ll v) y ∧
      BitVec.ofInt (if ll then 64 else 32) y =
        BitVec.ofInt (if ll then 64 else 32) v.toInt := by
  cases ll with
  | true =>
      refine ⟨v.toInt, holds_const ?_ (BitVec.ofInt_toInt).symm, rfl⟩
      exact inRange_signed.2 ⟨BitVec.le_toInt v, BitVec.toInt_lt⟩
  | false =>
      refine ⟨(low v).toInt, vpushi_holds (BitVec.ofInt_toInt).symm
        (inRange_signed.2 ⟨BitVec.le_toInt _, BitVec.toInt_lt⟩), ?_⟩
      show BitVec.ofInt 32 (low v).toInt = BitVec.ofInt 32 v.toInt
      rw [BitVec.ofInt_toInt, ← ofInt_setWidth (show 32 ≤ 64 by decide),
        BitVec.ofInt_toInt]
      rfl

/-- The comparison is on the value and the label themselves. -/
theorem common_eq {y : Int} (ht : Compared a.t) (ha : Fits a.t k)
    (hv : FitsLabel a.t v)
    (hy : BitVec.ofInt (if a.t.isLLong then 64 else 32) y =
      BitVec.ofInt (if a.t.isLLong then 64 else 32) v.toInt) :
    ∃ c, usual a.t (pushLabel a.t.isLLong v).t = c ∧ convert c k = k ∧
      convert c y = v.toInt := by
  have hvfits : InRange false 64 v.toInt := ⟨BitVec.le_toInt v, BitVec.toInt_lt⟩
  have hint (u : Bool) (hu : u = decide (a.t = .int true)) (hl : a.t.isLLong = false)
      (hk : InRange u 32 k) :
      convert (.int u) k = k ∧ convert (.int u) y = v.toInt := by
    have hlabel : InRange u 32 v.toInt := by
      rcases hv with hll | hv
      · rw [hl] at hll
        cases hll
      · exact hu ▸ hv
    rw [hl] at hy
    have hword : convert (.int u) y = convert (.int u) v.toInt := convert_congr rfl hy
    exact ⟨convert_of_fits (t := .int u) hk,
      hword.trans (convert_of_fits (t := .int u) hlabel)⟩
  cases hat : a.t with
  | ptr p =>
      rw [hat] at ht
      cases ht.1
  | bool | byte u | short u =>
      have hk := inRange_int ha (by rw [hat]; rfl) (by rw [hat]; simp)
      exact ⟨.int false, rfl, hint false (by rw [hat]; rfl) (by rw [hat]; rfl) hk⟩
  | int u =>
      rw [hat] at ha
      refine ⟨.int u, by cases u <;> rfl, hint u ?_ (by rw [hat]; rfl) ha⟩
      rw [hat]
      cases u <;> rfl
  | llong u =>
      cases u with
      | true => exact absurd hat ht.2
      | false =>
          rw [hat] at ha hy
          refine ⟨.llong false, rfl, convert_of_fits ha, ?_⟩
          exact (convert_congr (t := .llong false) rfl hy).trans
            (convert_of_fits (t := .llong false) hvfits)

/-- **A comparison with a label.** -/
theorem genTest_holds (hop : op = .le ∨ op = .ge ∨ op = .eq) (ht : Compared a.t)
    (ha : Holds env a k) (hv : FitsLabel a.t v) :
    ∃ t l, genTest ty op a v = .ok t ∧ t.word env = some l ∧
      (low l ≠ 0 ↔ testInt op k v.toInt = true) := by
  obtain ⟨y, hb, hy⟩ := pushLabel_holds env a.t.isLLong v
  obtain ⟨c, hc, hk, hlabel⟩ := common_eq ht ha.fits hv hy
  have hbt : (pushLabel a.t.isLLong v).t.isPtr = false := by
    rw [pushLabel]
    split <;> rfl
  have hz : evalOp ty op a.t (pushLabel a.t.isLLong v).t k y =
      some (convert (.int false) (if testInt op k v.toInt then 1 else 0)) := by
    rw [evalOp_arith ty ht.1 hbt]
    rcases hop with rfl | rfl | rfl
    · show some (convert (.int false) (if testInt .le (convert (usual _ _) k)
        (convert (usual _ _) y) then 1 else 0)) = _
      rw [hc, hk, hlabel]
    · show some (convert (.int false) (if testInt .ge (convert (usual _ _) k)
        (convert (usual _ _) y) then 1 else 0)) = _
      rw [hc, hk, hlabel]
    · show some (convert (.int false) (if testInt .eq (convert (usual _ _) k)
        (convert (usual _ _) y) then 1 else 0)) = _
      rw [hc, hk, hlabel]
  obtain ⟨t, hgen, htt, hholds⟩ := genOp_holds false
    (by rcases hop with rfl | rfl | rfl <;> rfl) ha hb hz
  have hlow := stands_low (width_le t.t).1 hholds.stands
  obtain ⟨l, hl, hword⟩ := hlow
  refine ⟨t.v, l, by rw [genTest, hgen]; rfl, hl, ?_⟩
  have hword : low l = BitVec.ofInt 32 (if testInt op k v.toInt then 1 else 0) :=
    hword.trans (ofInt_convert (t := .int false) rfl _)
  rw [hword]
  cases testInt op k v.toInt with
  | true => exact ⟨fun _ => rfl, fun _ => by decide⟩
  | false => exact ⟨fun h => absurd rfl h, fun h => by cases h⟩

end Tests

/-! ## The search -/

/-- The bounds of a label, with their sign. -/
def lower (p : Case) : Int := p.v1.toInt

def upper (p : Case) : Int := p.v2.toInt

section Search

variable (ty : Pointees) {env : Env} {a : SValue} {k : Int}

/-- The jumps lead to the label of the value. -/
def Leads (env : Env) (k : Int) (base : List Case) (code : Jumps) : Prop :=
  ∃ r, Finds lower upper k base r ∧ run env code = some (r.map Case.sym)

/-- The label has a value, and its bounds are compared as they are. -/
def Usable (t : CType) (p : Case) : Prop :=
  Proper lower upper p ∧ FitsLabel t p.v1 ∧ FitsLabel t p.v2

theorem run_test {v : Value} {l : DWord} {yes no : Jumps} {p : Prop} [Decidable p]
    (hv : v.word env = some l) (hl : low l ≠ 0 ↔ p) :
    run env (.test v yes no) = if p then run env yes else run env no := by
  have hrun : run env (.test v yes no) =
      if low l ≠ 0 then run env yes else run env no := by
    rw [run, hv]
    rfl
  rw [hrun]
  exact if_congr hl rfl rfl

/-- Between the bounds of a label, below it or above it. -/
theorem range_test {p : Case} (ht : Compared a.t) (ha : Holds env a k)
    (hp : Usable a.t p) :
    ∃ le ge, genTest ty .le a p.v2 = .ok le ∧ genTest ty .ge a p.v1 = .ok ge ∧
      ∀ yes mid no, run env (.test le (.test ge yes mid) no) =
        if k ≤ upper p then if lower p ≤ k then run env yes else run env mid
        else run env no := by
  obtain ⟨le, l, hle, hlw, hlt⟩ := genTest_holds ty (.inl rfl) ht ha hp.2.2
  obtain ⟨ge, g, hge, hgw, hgt⟩ := genTest_holds ty (.inr (.inl rfl)) ht ha hp.2.1
  refine ⟨le, ge, hle, hge, fun yes mid no => ?_⟩
  have hlt : low l ≠ 0 ↔ k ≤ upper p := hlt.trans decide_eq_true_iff
  have hgt : low g ≠ 0 ↔ lower p ≤ k := hgt.trans decide_eq_true_iff
  rw [run_test hlw hlt, run_test hgw hgt]

theorem scan_leads (ht : Compared a.t) (ha : Holds env a k) {base : List Case}
    (hbase : ∀ p ∈ base, Usable a.t p) :
    ∃ code, scan ty a base = .ok code ∧ Leads env k base code := by
  induction base with
  | nil => exact ⟨.exit, rfl, none, finds_nil k, rfl⟩
  | cons p rest ih =>
      obtain ⟨next, hnext, r, hfinds, hrun⟩ :=
        ih fun q hq => hbase q (List.mem_cons_of_mem p hq)
      have hp := hbase p (by simp)
      rw [scan, hnext]
      split
      · case isTrue heq =>
          obtain ⟨t, l, hgen, hl, htest⟩ := genTest_holds ty (.inr (.inr rfl)) ht
            ha hp.2.2
          have htest : low l ≠ 0 ↔ k = p.v2.toInt := htest.trans decide_eq_true_iff
          refine ⟨.test t (.jump p.sym) next, by rw [hgen]; rfl, ?_⟩
          rw [Leads, run_test hl htest]
          by_cases hk : k = p.v2.toInt
          · have hin : Within lower upper k p :=
              ⟨by rw [lower, heq, hk], by rw [upper, hk]⟩
            exact ⟨some p, finds_here (by simp) hin, if_pos hk⟩
          · have hout : ¬ Within lower upper k p := by
              rintro ⟨hlo, hhi⟩
              rw [lower, heq] at hlo
              exact hk (le_antisymm hhi hlo)
            exact ⟨r, finds_cons hout hfinds, (if_neg hk).trans hrun⟩
      · obtain ⟨le, ge, hle, hge, htest⟩ := range_test ty ht ha hp
        refine ⟨.test le (.test ge (.jump p.sym) next) next, by rw [hle, hge]; rfl, ?_⟩
        rw [Leads, htest]
        by_cases hin : Within lower upper k p
        · refine ⟨some p, finds_here (by simp) hin, ?_⟩
          rw [if_pos hin.2, if_pos hin.1]
          rfl
        · refine ⟨r, finds_cons hin hfinds, ?_⟩
          rw [hrun]
          split
          · rw [if_neg (fun h => hin ⟨h, by assumption⟩)]
          · rfl

theorem gcase_leads (ht : Compared a.t) (ha : Holds env a k) {base : List Case}
    (hbase : ∀ p ∈ base, Usable a.t p)
    (hsorted : base.Pairwise (Before lower upper)) :
    ∃ code, gcase ty a base = .ok code ∧ Leads env k base code := by
  induction hn : base.length using Nat.strong_induction_on generalizing base with
  | _ n ih =>
  subst hn
  rw [gcase]
  split
  case isFalse => exact scan_leads ty ht ha hbase
  case isTrue hlen =>
  have hmid : base.length / 2 < base.length := by omega
  generalize hp : base[base.length / 2] = p
  have hsplit : base = base.take (base.length / 2) ++
      p :: base.drop (base.length / 2 + 1) := by
    rw [← hp, List.getElem_cons_drop, List.take_append_drop]
  generalize hl : base.take (base.length / 2) = l at hsplit ⊢
  generalize hr : base.drop (base.length / 2 + 1) = r at hsplit ⊢
  have hllen : l.length < base.length := by
    rw [← hl, List.length_take]
    omega
  have hrlen : r.length < base.length := by
    rw [← hr, List.length_drop]
    omega
  rw [hsplit] at hbase hsorted
  obtain ⟨hlsorted, hprsorted, -⟩ := List.pairwise_append.1 hsorted
  have hpuse := hbase p (by simp)
  obtain ⟨left, hleft, lr, hlfinds, hlrun⟩ := ih l.length hllen
    (fun q hq => hbase q (by simp [hq])) hlsorted rfl
  obtain ⟨right, hright, rr, hrfinds, hrrun⟩ := ih r.length hrlen
    (fun q hq => hbase q (by simp [hq])) (List.pairwise_cons.1 hprsorted).2 rfl
  obtain ⟨le, ge, hle, hge, htest⟩ := range_test ty ht ha hpuse
  refine ⟨.test le (.test ge (.jump p.sym) left) right, ?_, ?_⟩
  · dsimp only
    rw [hle, hge, hleft, hright]
    rfl
  rw [Leads, htest, hsplit]
  by_cases hhi : k ≤ upper p
  · rw [if_pos hhi]
    by_cases hlo : lower p ≤ k
    · rw [if_pos hlo]
      exact ⟨some p, finds_here (by simp) ⟨hlo, hhi⟩, rfl⟩
    · rw [if_neg hlo]
      exact ⟨lr, finds_left hsorted hpuse.1 (not_le.1 hlo) hlfinds, hlrun⟩
  · rw [if_neg hhi]
    exact ⟨rr, finds_right hsorted hpuse.1 (not_le.1 hhi) hrfinds, hrrun⟩

theorem duplicate_iff (base : List Case) :
    duplicate base = false ↔ base.IsChain (Before lower upper) := by
  induction base with
  | nil => exact ⟨fun _ => List.IsChain.nil, fun _ => rfl⟩
  | cons p rest ih =>
      cases rest with
      | nil => exact ⟨fun _ => List.IsChain.singleton p, fun _ => rfl⟩
      | cons q rest =>
          rw [duplicate, Bool.or_eq_false_iff, decide_eq_false_iff_not, ih,
            List.isChain_cons_cons]
          exact and_congr_left fun _ => not_le

/-- The table that is searched. -/
theorem table_sorted (cases : List Case) :
    (cases.mergeSort fun p q => decide (p.v1.toInt ≤ q.v1.toInt)).Pairwise
      fun p q => lower p ≤ lower q := by
  let le (p q : Case) : Bool := decide (p.v1.toInt ≤ q.v1.toInt)
  have htrans (p q r : Case) : le p q → le q r → le p r := fun hpq hqr =>
    decide_eq_true (le_trans (of_decide_eq_true hpq) (of_decide_eq_true hqr))
  have htotal (p q : Case) : le p q || le q p := by
    rw [Bool.or_eq_true, decide_eq_true_iff, decide_eq_true_iff]
    exact le_total _ _
  have hsorted := List.pairwise_mergeSort htrans htotal cases
  exact hsorted.imp fun h => of_decide_eq_true h

/-- A value of 64 bits is compared with its sign. -/
theorem compared_holds {x : Int} (ha : Holds env a x) (hint : a.t.isPtr = false) :
    ∃ b, (if a.t.isLLong then ⟨.llong false, a.v⟩ else a) = b ∧ Compared b.t ∧
      Holds env b (key a.t x) ∧ ∀ p, Usable a.t p → Usable b.t p := by
  refine ⟨_, rfl, ?_⟩
  rw [key]
  cases hl : a.t.isLLong with
  | true =>
      have hw : a.t.width = 64 := by rw [CType.width, hl, if_pos rfl]
      have hstands := ha.stands
      rw [hw] at hstands
      have hfits : Fits (.llong false) (wrap false 64 x) :=
        wrap_inRange false (by decide) x
      refine ⟨⟨rfl, by simp⟩, ⟨hfits, ?_, ?_⟩, fun p hp => ⟨hp.1, .inl rfl, .inl rfl⟩⟩
      · exact stands_congr (ofInt_wrap false x).symm hstands
      · intro hadd
        rw [ha.narrow hadd] at hl
        cases hl
  | false =>
      refine ⟨⟨hint, ?_⟩, ha, fun p hp => hp⟩
      intro ht
      rw [if_neg Bool.false_ne_true] at ht
      rw [ht] at hl
      cases hl

/-- **A `switch` goes to the label of its value.**  It is refused exactly if two
labels have a value in common. -/
theorem switch_jumps {x : Int} {cases : List Case} (ha : Holds env a x)
    (hint : a.t.isPtr = false) (hcases : ∀ p ∈ cases, Usable a.t p) :
    (cases.Pairwise (Apart lower upper) →
      ∃ code, switchCode ty a cases = .ok code ∧
        (∀ p ∈ cases, Within lower upper (key a.t x) p →
          run env code = some (some p.sym)) ∧
        ((∀ p ∈ cases, ¬ Within lower upper (key a.t x) p) →
          run env code = some none)) ∧
    (¬ cases.Pairwise (Apart lower upper) →
      switchCode ty a cases = .error "duplicate case value") := by
  obtain ⟨b, hb, ht, hholds, husable⟩ := compared_holds ha hint
  let table := cases.mergeSort fun p q => decide (p.v1.toInt ≤ q.v1.toInt)
  have hperm : table.Perm cases := List.mergeSort_perm _ _
  have hmem (p : Case) : p ∈ table ↔ p ∈ cases := hperm.mem_iff
  have hproper : ∀ p ∈ table, Proper lower upper p := fun p hp =>
    (hcases p ((hmem p).1 hp)).1
  have happart : table.Pairwise (Before lower upper) ↔
      cases.Pairwise (Apart lower upper) :=
    (pairwise_before_iff hproper (table_sorted cases)).trans
      (hperm.pairwise_iff fun h => h.symm)
  have hdup : duplicate table = false ↔ table.Pairwise (Before lower upper) :=
    (duplicate_iff table).trans
      ⟨pairwise_before_of_chain hproper, List.Pairwise.isChain⟩
  constructor
  · intro h
    obtain ⟨code, hcode, r, hfinds, hrun⟩ := gcase_leads ty ht hholds
      (fun p hp => husable p (hcases p ((hmem p).1 hp))) (happart.2 h)
    refine ⟨code, ?_, fun p hp hin => ?_, fun hout => ?_⟩
    · have hno := hdup.2 (happart.2 h)
      rw [switchCode, hb]
      exact (if_neg (Bool.eq_false_iff.1 hno)).trans hcode
    · rw [hrun, hfinds.eq_some ((happart.2 h).imp Or.inl) hproper ((hmem p).2 hp) hin]
      rfl
    · rw [hrun, hfinds.eq_none fun p hp => hout p ((hmem p).1 hp)]
      rfl
  · intro h
    have hyes : duplicate table = true := by
      cases hd : duplicate table with
      | true => rfl
      | false => exact absurd (happart.1 (hdup.1 hd)) h
    exact if_pos hyes

end Search
instance (t : CType) (v : DWord) : Decidable (FitsLabel t v) :=
  inferInstanceAs (Decidable (_ ∨ _))

instance (t : CType) (p : Case) : Decidable (Usable t p) :=
  inferInstanceAs (Decidable (_ ∧ _ ∧ _))

/-- A variable of the program. -/
def sampleValue : SValue := ⟨.int false, .var (.int false) 0⟩

/-- Enough labels for a step of the binary search, one of them a range. -/
def sampleCases : List Case :=
  [⟨1, 1, 10⟩, ⟨7, 7, 11⟩, ⟨-9, -3, 12⟩, ⟨100, 100, 13⟩, ⟨-20, -20, 14⟩, ⟨0, 0, 15⟩]

/-- The variable is `-5`. -/
theorem sampleCases_jumps :
    ∃ code, switchCode words sampleValue sampleCases = .ok code ∧
      run sampleEnv code = some (some 12) := by
  have hvalue : Holds sampleEnv sampleValue (-5) :=
    ⟨inRange_signed.2 (by decide), ⟨-5, rfl, rfl⟩, fun h => by cases h⟩
  obtain ⟨code, hcode, hin, -⟩ :=
    (switch_jumps words hvalue rfl (show ∀ p ∈ sampleCases, Usable _ p by decide)).1
      (by decide)
  exact ⟨code, hcode, hin ⟨-9, -3, 12⟩ (by decide) (by decide)⟩

end Bucktoot.Ports.Switch
