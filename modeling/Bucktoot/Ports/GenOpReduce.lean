import Bucktoot.Ports.GenOpFold

/-!
# What `gen_opic` leaves has the same value

* `Stands` — an entry of the value stack is a word that stands for an integer;
* `wordOp_drops`, `wordOp_decides` — operations that have no effect, and those
  that one operand decides;
* `intOp_shiftFor` — the shift that takes the place of a multiplication or of a
  division;
* `genOpic_stands` — the whole of `gen_opic`;
* `Address.genOpic` — no address comes out of it that does not go in.
-/

namespace Bucktoot.Ports.GenOp

open Bucktoot.Verified
open Bucktoot.Verified.Words
open Bucktoot.Ports.Libtcc1

/-! ## Values -/

/-- The value is a word that stands for the integer in its lowest `w` bits. -/
def Stands (env : Env) (w : Nat) (v : Value) (x : Int) : Prop :=
  ∃ l, v.word env = some l ∧ l.setWidth w = BitVec.ofInt w x

section Reduce

variable {env : Env} {t1 t2 : CType} {op : Op} {a b : Value} {x y z : Int}
  {u : Bool} {l2 : DWord}

theorem width_cases (t : CType) :
    (t.isLLong = true ∧ t.width = 64) ∨ (t.isLLong = false ∧ t.width = 32) := by
  cases ht : t.isLLong with
  | true => exact .inl ⟨rfl, by rw [CType.width, ht, if_pos rfl]⟩
  | false => exact .inr ⟨rfl, by rw [CType.width, ht, if_neg Bool.false_ne_true]⟩

theorem width_le (t : CType) : 32 ≤ t.width ∧ t.width ≤ 64 := by
  rcases width_cases t with ⟨-, h⟩ | ⟨-, h⟩ <;> omega

/-- The width of the second operand. -/
def countWidth (op : Op) (t1 : CType) : Nat := if op.isShift then 32 else t1.width

/-- Only the count of a shift matters. -/
theorem wordOp_count {w : Nat} (h : op.isShift = true) (l : BitVec w)
    {m m' : BitVec w} (hcount : count m = count m') :
    wordOp op l m = wordOp op l m' := by
  cases op
  case shl | shr | sar => simp only [wordOp, hcount]
  all_goals cases h

theorem count_range {w : Nat} (h : op.isShift = true)
    (hz : intOp w op x y = some z) : 0 ≤ y ∧ y < w := by
  have hrange (r : Int) (hz : (if 0 ≤ y ∧ y < w then some r else none) = some z) :
      0 ≤ y ∧ y < w := by
    by_contra hout
    rw [if_neg hout] at hz
    cases hz
  cases op
  case shl | shr | sar => exact hrange _ hz
  all_goals cases h

/-- The operation that is emitted. -/
theorem general_stands (hwide : t2.isLLong = true → t1.isLLong = true)
    (hword : wordOp op (BitVec.ofInt t1.width x) (BitVec.ofInt t1.width y) =
      some (BitVec.ofInt t1.width z))
    (hshift : op.isShift = true → 0 ≤ y ∧ y < t1.width)
    (ha : Stands env t1.width a x) (hb : Stands env (countWidth op t1) b y)
    (hzero : op.isShift = true → b.const?.isSome = true → y ≠ 0) :
    Stands env t1.width (general t1 t2 op a b) z := by
  obtain ⟨la, hla, hlx⟩ := ha
  obtain ⟨lb, hlb, hly⟩ := hb
  rcases width_cases t1 with ⟨hl, hw⟩ | ⟨hl, hw⟩
  · have hgen : general t1 t2 op a b = .opl op a b := by
      rw [general, hl, Bool.true_or, if_pos rfl]
    rw [hw] at hlx hword hshift ⊢
    rw [BitVec.setWidth_eq] at hlx
    have hop : wordOp op la lb = some (BitVec.ofInt 64 z) := by
      rw [hlx, ← hword]
      cases hs : op.isShift with
      | true =>
          rw [countWidth, hs, if_pos rfl] at hly
          refine wordOp_count hs _ ?_
          rw [count, count, hly, ofInt_setWidth (by decide)]
      | false =>
          rw [countWidth, hs, if_neg Bool.false_ne_true, hw, BitVec.setWidth_eq] at hly
          rw [hly]
    refine ⟨BitVec.ofInt 64 z, ?_, BitVec.setWidth_eq _⟩
    rw [hgen]
    simp only [Value.word, hla, hlb, Option.bind_eq_bind, Option.bind_some]
    refine genOpl_eq ?_ hop
    intro hconst hs hcount
    obtain ⟨h0, hlt⟩ := hshift hs
    rw [countWidth, hs, if_pos rfl] at hly
    have hrange : InRange true 32 y := ⟨h0, by omega⟩
    have hnat := toNat_ofInt hrange
    rw [← hly] at hnat
    rw [count] at hcount
    exact hzero hs hconst (by omega)
  · have ht2 : t2.isLLong = false := by
      cases h2 : t2.isLLong with
      | true => exact absurd (hwide h2) (by rw [hl]; decide)
      | false => rfl
    have hgen : general t1 t2 op a b = .opi op a b := by
      rw [general, hl, ht2]
      rfl
    have hcw : countWidth op t1 = 32 := by
      rw [countWidth, hw]
      split <;> rfl
    rw [hw] at hlx hword ⊢
    rw [hcw] at hly
    refine ⟨(BitVec.ofInt 32 z).setWidth 64, ?_,
      BitVec.setWidth_setWidth_of_le _ (by decide)⟩
    have hlowa : low la = BitVec.ofInt 32 x := hlx
    have hlowb : low lb = BitVec.ofInt 32 y := hly
    rw [hgen]
    simp only [Value.word, hla, hlb, Option.bind_eq_bind, Option.bind_some, hlowa,
      hlowb, genOpi_refines hword]

theorem eq_of_else {α : Type} {p : Prop} [Decidable p] {f r : α}
    (h : (if p then none else some f) = some r) : r = f := by
  split at h
  · cases h
  · exact (Option.some.inj h).symm

theorem eq_of_then {α : Type} {p : Prop} [Decidable p] {f r : α}
    (h : (if p then some f else none) = some r) : r = f := by
  split at h
  · exact (Option.some.inj h).symm
  · cases h

/-- A constant operand that has no effect. -/
theorem wordOp_drops {w : Nat} {l m r : BitVec w} (h : wordOp op l m = some r)
    (hdrops : ((op = .mul ∨ op = .div ∨ op = .udiv ∨ op = .pdiv) ∧ m = 1) ∨
      ((op = .add ∨ op = .sub ∨ op = .or ∨ op = .xor) ∧ m = 0) ∨
      (op.isShift = true ∧ count m = 0) ∨ (op = .and ∧ m = -1)) : r = l := by
  rcases hdrops with ⟨hop, rfl⟩ | ⟨hop, rfl⟩ | ⟨hop, hm⟩ | ⟨rfl, rfl⟩
  · rcases hop with rfl | rfl | rfl | rfl
    · exact (Option.some.inj h).symm.trans (BitVec.mul_one l)
    · exact (eq_of_else h).trans BitVec.sdiv_one
    · exact (eq_of_else h).trans BitVec.udiv_one
    · exact (eq_of_else h).trans BitVec.sdiv_one
  · rcases hop with rfl | rfl | rfl | rfl
    · exact (Option.some.inj h).symm.trans (BitVec.add_zero l)
    · exact (Option.some.inj h).symm.trans (BitVec.sub_zero l)
    · exact (Option.some.inj h).symm.trans BitVec.or_zero
    · exact (Option.some.inj h).symm.trans BitVec.xor_zero
  · cases op
    case shl =>
      rw [wordOp, hm] at h
      exact (eq_of_then h).trans (BitVec.shiftLeft_zero l)
    case shr =>
      rw [wordOp, hm] at h
      exact (eq_of_then h).trans (BitVec.ushiftRight_zero l)
    case sar =>
      rw [wordOp, hm] at h
      exact (eq_of_then h).trans BitVec.sshiftRight_zero
    all_goals cases hop
  · refine (Option.some.inj h).symm.trans ?_
    show l &&& (-1#w) = l
    rw [BitVec.neg_one_eq_allOnes, BitVec.and_allOnes]

/-- A constant operand that is the result. -/
theorem wordOp_decides {w : Nat} {l m r : BitVec w} (h : wordOp op l m = some r)
    (hdecides : ((op = .and ∨ op = .mul) ∧ m = 0) ∨ (op = .or ∧ m = -1)) :
    r = m := by
  rcases hdecides with ⟨rfl | rfl, rfl⟩ | ⟨rfl, rfl⟩
  · exact (Option.some.inj h).symm.trans BitVec.and_zero
  · exact (Option.some.inj h).symm.trans BitVec.mul_zero
  · refine (Option.some.inj h).symm.trans ?_
    show l ||| (-1#w) = -1#w
    rw [BitVec.neg_one_eq_allOnes, BitVec.or_allOnes]

theorem wordOp_mod_one {w : Nat} {l r : BitVec w} (h : wordOp op l 1 = some r)
    (hop : op = .mod ∨ op = .umod) : r = 0 := by
  rcases hop with rfl | rfl
  · exact (eq_of_else h).trans BitVec.srem_one
  · exact (eq_of_else h).trans BitVec.umod_one

/-! ## Powers of two -/

theorem toNat_twoPow {n : Nat} (hn : n < 64) :
    (BitVec.twoPow 64 n).toNat = 2 ^ n := by
  rw [BitVec.toNat_twoPow]
  exact Nat.mod_eq_of_lt (Nat.pow_lt_pow_right (by decide) hn)

theorem countBits_twoPow {fuel n : Nat} (k : Nat) (hfuel : n < fuel) (hn : n < 64) :
    countBits fuel (BitVec.twoPow 64 n) k = k + n + 1 := by
  induction n generalizing fuel k with
  | zero =>
      obtain ⟨fuel, rfl⟩ := Nat.exists_eq_add_of_lt hfuel
      rw [Nat.zero_add, countBits, if_pos (by decide)]
      have hdone : BitVec.twoPow 64 0 >>> 1 = 0 := rfl
      rw [hdone]
      cases fuel <;> rfl
  | succ n ih =>
      obtain ⟨fuel, rfl⟩ := Nat.exists_eq_add_of_lt hfuel
      have hhalf : BitVec.twoPow 64 (n + 1) >>> 1 = BitVec.twoPow 64 n := by
        apply BitVec.eq_of_toNat_eq
        rw [BitVec.toNat_ushiftRight, toNat_twoPow hn, toNat_twoPow (by omega),
          Nat.shiftRight_eq_div_pow, Nat.pow_succ, Nat.pow_one,
          Nat.mul_div_cancel _ (by decide)]
      have hne : BitVec.twoPow 64 (n + 1) ≠ 0 := by
        intro h0
        have hzero := toNat_twoPow hn
        rw [h0] at hzero
        exact absurd hzero.symm (Nat.two_pow_pos _).ne'
      rw [countBits, if_pos hne, hhalf, ih (k + 1) (by omega) (by omega)]
      omega

theorem shiftCount_eq {n : Nat} (hn : n < 64) :
    BitVec.ofNat 64 (countBits 64 (BitVec.twoPow 64 n) 0) - 1 =
      BitVec.ofNat 64 n := by
  rw [countBits_twoPow 0 hn hn, Nat.zero_add]
  apply BitVec.eq_of_toNat_eq
  rw [BitVec.toNat_sub, BitVec.toNat_ofNat, BitVec.toNat_ofNat]
  show (2 ^ 64 - 1 + (n + 1) % 2 ^ 64) % 2 ^ 64 = n % 2 ^ 64
  omega

theorem exists_twoPow {l : DWord} (h : l ≠ 0 ∧ l &&& (l - 1) = 0) :
    ∃ n < 64, l = BitVec.twoPow 64 n := by
  have hne : l.toNat ≠ 0 := fun h0 => h.1 (BitVec.eq_of_toNat_eq h0)
  have hand : l.toNat &&& (l.toNat - 1) = 0 := by
    have hsub : (l - 1).toNat = l.toNat - 1 :=
      BitVec.toNat_sub_of_le (Nat.one_le_iff_ne_zero.2 hne)
    rw [← hsub, ← BitVec.toNat_and, h.2]
    rfl
  obtain ⟨n, hn⟩ := (Nat.and_sub_one_eq_zero_iff_isPowerOfTwo hne).1 hand
  have hlt : n < 64 := by
    have hl := l.isLt
    rw [hn] at hl
    exact (Nat.pow_lt_pow_iff_right (by decide)).1 hl
  refine ⟨n, hlt, BitVec.eq_of_toNat_eq ?_⟩
  rw [BitVec.toNat_twoPow, hn, Nat.mod_eq_of_lt (hn ▸ l.isLt)]

/-- A constant of the range of its type that is a power of two. -/
theorem twoPow_cases {n : Nat} (hn : n < 64) {w : Nat} (hw : w = 32 ∨ w = 64)
    (hy : InRange u w y) (h : BitVec.ofInt 64 y = BitVec.twoPow 64 n) :
    n < w ∧ (y = 2 ^ n ∨ (u = false ∧ y < 0)) := by
  have hnat : (y % 2 ^ 64).toNat = 2 ^ n := by
    have heq := congrArg BitVec.toNat h
    rw [toNat_twoPow hn, BitVec.toNat_ofInt] at heq
    exact heq
  have hle : 2 ^ n ≤ 2 ^ 63 := Nat.pow_le_pow_right (by decide) (by omega)
  have hcast : ((2 ^ n : Nat) : Int) = 2 ^ n := by push_cast; rfl
  have hlt (k : Nat) (hk : 2 ^ n < 2 ^ k) : n < k :=
    (Nat.pow_lt_pow_iff_right (by decide)).1 hk
  rw [← hcast]
  generalize 2 ^ n = p at hnat hle hlt ⊢
  rcases hw with rfl | rfl
  · cases u with
    | true =>
        obtain ⟨hlow, hhigh⟩ := inRange_unsigned.1 hy
        exact ⟨hlt 32 (by omega), .inl (by omega)⟩
    | false =>
        obtain ⟨hlow, hhigh⟩ := inRange_signed.1 hy
        have hpos : 0 ≤ y := by omega
        exact ⟨hlt 32 (by omega), .inl (by omega)⟩
  · refine ⟨hn, ?_⟩
    cases u with
    | true =>
        obtain ⟨hlow, hhigh⟩ := inRange_unsigned.1 hy
        exact .inl (by omega)
    | false =>
        rcases Int.lt_or_le y 0 with hneg | hpos
        · exact .inr ⟨rfl, hneg⟩
        · obtain ⟨hlow, hhigh⟩ := inRange_signed.1 hy
          exact .inl (by omega)

/-- The shift that takes the place of a multiplication or a division. -/
theorem intOp_shiftFor {n w : Nat} (hn : n < 64) (hw : w = 32 ∨ w = 64)
    (hop : op = .mul ∨ op = .pdiv ∨ op = .udiv) (hreads : op.reads ≠ some !u)
    (hx : InRange u w x) (hy : InRange u w y)
    (h : BitVec.ofInt 64 y = BitVec.twoPow 64 n) (hz : intOp w op x y = some z) :
    ∃ z', intOp w (shiftFor op) x n = some z' ∧
      BitVec.ofInt w z' = BitVec.ofInt w z := by
  obtain ⟨hnw, hpow⟩ := twoPow_cases hn hw hy h
  have hcount : (0 : Int) ≤ n ∧ (n : Int) < w := by omega
  have hnat : (n : Int).toNat = n := Int.toNat_natCast n
  rcases hop with rfl | rfl | rfl
  · refine ⟨x * 2 ^ n, by rw [shiftFor, intOp, if_pos hcount, hnat], ?_⟩
    have hsame : BitVec.ofInt 64 (2 ^ n) = BitVec.ofInt 64 y := by
      rw [h, ofInt_twoPow]
    cases hz
    rw [BitVec.ofInt_mul, BitVec.ofInt_mul, ← ofInt_setWidth (w := 64) (by omega) (2 ^ n),
      hsame, ofInt_setWidth (by omega)]
  · have hu : u = false := by
      cases u with
      | true => exact absurd rfl hreads
      | false => rfl
    simp only [intOp] at hz
    split at hz
    · case isTrue hexact =>
        obtain rfl : y = 2 ^ n := by
          rcases hpow with h | ⟨-, hneg⟩
          · exact h
          · omega
        cases hz
        exact ⟨_, by rw [shiftFor, intOp, if_pos hcount, hnat], rfl⟩
    · cases hz
  · have hu : u = true := by
      cases u with
      | true => rfl
      | false => exact absurd rfl hreads
    subst hu
    obtain rfl : y = 2 ^ n := by
      rcases hpow with h | ⟨hfalse, -⟩
      · exact h
      · cases hfalse
    have hzx := eq_of_else hz
    have hshift : shiftFor .udiv = .shr := rfl
    refine ⟨_, by rw [hshift, intOp, if_pos hcount, hnat], ?_⟩
    rw [hzx, Int.tdiv_eq_ediv_of_nonneg hx.1]

/-! ## A known operand -/

theorem stands_congr {w : Nat} {v : Value} (h : BitVec.ofInt w x = BitVec.ofInt w z)
    (hv : Stands env w v x) : Stands env w v z := by
  obtain ⟨l, hl, hx⟩ := hv
  exact ⟨l, hl, hx.trans h⟩

/-- A known word and the word of an operation. -/
theorem ofInt_of_word {k : Int} (h : BitVec.ofInt 64 y = BitVec.ofInt 64 k) :
    BitVec.ofInt t1.width y = BitVec.ofInt t1.width k := by
  rw [← ofInt_setWidth (width_le t1).2, h, ofInt_setWidth (width_le t1).2]

theorem ofInt_allOnes (hwide : t2.isLLong = t1.isLLong)
    (h : allOnes t2 (BitVec.ofInt 64 y) = true) : BitVec.ofInt t1.width y = -1 := by
  have hminus (w : Nat) : BitVec.ofInt w (-1) = -1 := by
    rw [BitVec.ofInt_neg]
    rfl
  rw [allOnes, Bool.or_eq_true, Bool.and_eq_true, decide_eq_true_iff,
    decide_eq_true_iff, hwide] at h
  rcases h with h | ⟨h, hl⟩
  · rw [ofInt_of_word (k := -1) (h.trans (hminus 64).symm), hminus]
  · have hw : t1.width = 32 := by
      rcases width_cases t1 with ⟨h1, -⟩ | ⟨-, hw⟩
      · rw [h1] at hl
        cases hl
      · exact hw
    have hlow := ofInt_setWidth (show 32 ≤ 64 by decide) y
    rw [hw, ← hlow, h]
    rfl

theorem drops_eq {r : BitVec t1.width}
    (hwide : op.isShift = false → t2.isLLong = t1.isLLong)
    (hword : wordOp op (BitVec.ofInt t1.width x) (BitVec.ofInt t1.width y) = some r)
    (h : drops op t2 (BitVec.ofInt 64 y) = true) : r = BitVec.ofInt t1.width x := by
  have hword1 (h : BitVec.ofInt 64 y = 1) : BitVec.ofInt t1.width y = 1 :=
    ofInt_of_word (k := 1) h
  have hword0 (h : BitVec.ofInt 64 y = 0) : BitVec.ofInt t1.width y = 0 :=
    ofInt_of_word (k := 0) h
  have hcount (h : BitVec.ofInt t1.width y = 0) :
      count (BitVec.ofInt t1.width y) = 0 := by
    rw [count, h]
    simp
  simp only [drops, Bool.or_eq_true, Bool.and_eq_true, decide_eq_true_eq] at h
  rcases h with (⟨hop, h1⟩ | ⟨hop, h0⟩) | ⟨hop, hones⟩
  · exact wordOp_drops hword (.inl ⟨by tauto, hword1 h1⟩)
  · rcases hop with hop | hs
    · exact wordOp_drops hword (.inr (.inl ⟨by tauto, hword0 h0⟩))
    · exact wordOp_drops hword (.inr (.inr (.inl ⟨hs, hcount (hword0 h0)⟩)))
  · subst hop
    exact wordOp_drops hword
      (.inr (.inr (.inr ⟨rfl, ofInt_allOnes (hwide rfl) hones⟩)))

theorem decides_stands
    (hwide : op.isShift = false → t2.isLLong = t1.isLLong)
    (hword : wordOp op (BitVec.ofInt t1.width x) (BitVec.ofInt t1.width y) =
      some (BitVec.ofInt t1.width z))
    (hb : Stands env (countWidth op t1) b y)
    (h : decides op t2 (BitVec.ofInt 64 y) = true) :
    Stands env t1.width (if BitVec.ofInt 64 y = 1 then .const 0 else b) z := by
  have hword1 (h : BitVec.ofInt 64 y = 1) : BitVec.ofInt t1.width y = 1 :=
    ofInt_of_word (k := 1) h
  have hword0 (h : BitVec.ofInt 64 y = 0) : BitVec.ofInt t1.width y = 0 :=
    ofInt_of_word (k := 0) h
  have hones : (1 : DWord) ≠ 0 ∧ allOnes t2 1 = false := by
    refine ⟨by decide, ?_⟩
    rw [allOnes]
    simp
  simp only [decides, Bool.or_eq_true, Bool.and_eq_true, decide_eq_true_eq] at h
  have hsame (hs : op.isShift = false)
      (hr : BitVec.ofInt t1.width z = BitVec.ofInt t1.width y) :
      Stands env t1.width b z := by
    rw [countWidth, hs, if_neg Bool.false_ne_true] at hb
    exact stands_congr hr.symm hb
  rcases h with (⟨hop, h0⟩ | ⟨hop, ho⟩) | ⟨hop, h1⟩
  · rw [if_neg (h0 ▸ hones.1.symm)]
    refine hsame (by rcases hop with rfl | rfl <;> rfl) ?_
    exact wordOp_decides hword (.inl ⟨hop, hword0 h0⟩)
  · subst hop
    rw [if_neg (fun h1 => by rw [h1, hones.2] at ho; cases ho)]
    exact hsame rfl (wordOp_decides hword (.inr ⟨rfl, ofInt_allOnes (hwide rfl) ho⟩))
  · rw [if_pos h1]
    rw [hword1 h1] at hword
    refine ⟨0, rfl, ?_⟩
    rw [wordOp_mod_one hword hop]
    exact BitVec.setWidth_zero _ _

/-- An offset behind an address. -/
theorem withAddend_stands {i d : DWord} (hadd : a.addend? = some i)
    (ha : Stands env 32 a x) (hd : low d = BitVec.ofInt 32 y) :
    Stands env 32 (a.withAddend (d + i)) (x + y) := by
  obtain ⟨l, hl, hx⟩ := ha
  have hlow (base : Word) : low ((base + low (d + i)).setWidth 64) =
      low ((base + low i).setWidth 64) + low d := by
    have hsplit : low (d + i) = low d + low i :=
      BitVec.setWidth_add d i (show 32 ≤ 64 by decide)
    have hback (u : Word) : low (u.setWidth 64) = u :=
      (BitVec.setWidth_setWidth_of_le u (show 32 ≤ 64 by decide)).trans
        (BitVec.setWidth_eq u)
    rw [hback, hback, hsplit, BitVec.add_comm (low d), BitVec.add_assoc]
  have hxl : low l = BitVec.ofInt 32 x := hx
  cases a with
  | sym s j =>
      cases hadd
      cases hl
      refine ⟨_, rfl, (hlow (env.sym s)).trans ?_⟩
      rw [hxl, hd, BitVec.ofInt_add]
  | frame j =>
      cases hadd
      cases hl
      refine ⟨_, rfl, (hlow env.frame).trans ?_⟩
      rw [hxl, hd, BitVec.ofInt_add]
  | const j => cases hadd
  | var t x => cases hadd
  | opi op a b => cases hadd
  | opl op a b => cases hadd
  | widen u a => cases hadd

theorem offset_stands {w : Nat} {i : DWord} (hop : op = .add ∨ op = .sub)
    (hadd : a.addend? = some i) (ha : Stands env 32 a x)
    (hz : intOp w op x y = some z) :
    Stands env 32 (a.withAddend
      ((if op = .sub then -BitVec.ofInt 64 y else BitVec.ofInt 64 y) + i)) z := by
  have hlow (k : Int) : low (BitVec.ofInt 64 k) = BitVec.ofInt 32 k :=
    ofInt_setWidth (show 32 ≤ 64 by decide) k
  rcases hop with rfl | rfl
  · cases hz
    exact withAddend_stands hadd ha (hlow y)
  · cases hz
    rw [if_pos rfl, Int.sub_eq_add_neg]
    refine withAddend_stands hadd ha ?_
    rw [← BitVec.ofInt_neg]
    exact hlow (-y)

theorem isLLong_of_hwide (hwide : t2.isLLong = (!op.isShift && t1.isLLong)) :
    (t2.isLLong = true → t1.isLLong = true) ∧
      (op.isShift = false → t2.isLLong = t1.isLLong) := by
  rw [hwide]
  constructor
  · intro h
    exact (Bool.and_eq_true_iff.1 h).2
  · intro h
    rw [h]
    rfl

/-- A shift for a multiplication or a division. -/
theorem shiftFor_stands {n : Nat} (hn : n < 64) (hn0 : n ≠ 0)
    (hwide : t2.isLLong = true → t1.isLLong = true)
    (hop : op = .mul ∨ op = .pdiv ∨ op = .udiv) (hreads : op.reads ≠ some !u)
    (hrange : InRange u t1.width x ∧ InRange u t1.width y)
    (hl2 : BitVec.ofInt 64 y = BitVec.twoPow 64 n)
    (hz : intOp t1.width op x y = some z) (ha : Stands env t1.width a x) :
    Stands env t1.width (general t1 t2 (shiftFor op) a (.const (BitVec.ofNat 64 n)))
      z := by
  have hw : t1.width = 32 ∨ t1.width = 64 := by
    rcases width_cases t1 with ⟨-, h⟩ | ⟨-, h⟩
    · exact .inr h
    · exact .inl h
  obtain ⟨z', hz', hsame⟩ := intOp_shiftFor hn hw hop hreads hrange.1 hrange.2 hl2 hz
  have hshift : (shiftFor op).isShift = true ∧ (shiftFor op).modular = true ∧
      (shiftFor op).reads ≠ some !u := by
    rcases hop with rfl | rfl | rfl
    · exact ⟨rfl, rfl, fun h => by cases h⟩
    · exact ⟨rfl, rfl, hreads⟩
    · exact ⟨rfl, rfl, hreads⟩
  have hmod : (shiftFor op).modular = false → InRange u t1.width (n : Int) := by
    intro h
    rw [hshift.2.1] at h
    cases h
  have hword := wordOp_ofInt (width_le t1).1 (width_le t1).2 hshift.2.2 hrange.1 hmod hz'
  have hconst : Stands env (countWidth (shiftFor op) t1)
      (.const (BitVec.ofNat 64 n)) n := by
    refine ⟨_, rfl, ?_⟩
    rw [countWidth, hshift.1, if_pos rfl, ← BitVec.ofInt_natCast,
      ofInt_setWidth (by decide)]
  refine stands_congr hsame (general_stands hwide hword (fun _ => ?_) ha hconst ?_)
  · exact count_range hshift.1 hz'
  · intro _ _ h0
    exact hn0 (by exact_mod_cast h0)

/-- **What is left of an operation with a known operand.** -/
theorem reduceRight_stands (cw : Bool)
    (hwide : t2.isLLong = (!op.isShift && t1.isLLong))
    (hnarrow : a.addend?.isSome = true → t1.isLLong = false)
    (hreads : op.reads ≠ some !u)
    (hrange : op.modular = false → InRange u t1.width x ∧ InRange u t1.width y)
    (hword : wordOp op (BitVec.ofInt t1.width x) (BitVec.ofInt t1.width y) =
      some (BitVec.ofInt t1.width z))
    (hz : intOp t1.width op x y = some z)
    (ha : Stands env t1.width a x) (hb : Stands env (countWidth op t1) b y) :
    Stands env t1.width (reduceRight cw op t1 t2 a b (BitVec.ofInt 64 y)) z := by
  obtain ⟨hwide1, hwide2⟩ := isLLong_of_hwide hwide
  rw [reduceRight]
  split
  · case isTrue h =>
      exact decides_stands hwide2 hword hb (Bool.and_eq_true_iff.1 h).2
  split
  · case isTrue h =>
      have hr := drops_eq hwide2 hword h
      exact stands_congr hr.symm ha
  case isFalse hkeep =>
  have hgeneral : Stands env t1.width (general t1 t2 op a b) z := by
    refine general_stands hwide1 hword (fun hs => count_range hs hz) ha hb ?_
    rintro hs - rfl
    refine hkeep ?_
    rw [drops, hs]
    simp
  split
  · case isTrue hop =>
      rw [Bool.or_eq_true, Bool.or_eq_true, decide_eq_true_iff, decide_eq_true_iff,
        decide_eq_true_iff, or_assoc] at hop
      split
      · case isTrue hpow =>
          obtain ⟨n, hn, hl2⟩ := exists_twoPow hpow
          have hmod : op.modular = false := by
            rcases hop with rfl | rfl | rfl <;> rfl
          have hn0 : n ≠ 0 := by
            rintro rfl
            have hone : BitVec.ofInt 64 y = 1 := hl2
            refine hkeep ?_
            rw [drops, hone]
            rcases hop with rfl | rfl | rfl <;> rfl
          rw [hl2, shiftCount_eq hn]
          exact shiftFor_stands hn hn0 hwide1 hop hreads (hrange hmod) hl2 hz ha
      · exact hgeneral
  split
  · case isTrue hop =>
      split
      · exact hgeneral
      · case _ i hadd =>
          have hll : t1.isLLong = false := hnarrow (by rw [hadd]; rfl)
          have hw : t1.width = 32 := by
            rw [CType.width, hll, if_neg Bool.false_ne_true]
          rw [Bool.or_eq_true, decide_eq_true_iff, decide_eq_true_iff] at hop
          have haddress := offset_stands hop hadd (hw ▸ ha) hz
          rw [← hw] at haddress
          have hpick (p : Prop) [Decidable p] :
              Stands env t1.width (if p then general t1 t2 op a b else a.withAddend
                ((if op = .sub then -BitVec.ofInt 64 y else BitVec.ofInt 64 y) + i))
                z := by
            split
            · exact hgeneral
            · exact haddress
          exact hpick _
  · exact hgeneral

/-! ## `gen_opic` -/

theorem commutes_cases (h : op.commutes = true) :
    op.isShift = false ∧
      (∀ {w : Nat} (l m : BitVec w), wordOp op l m = wordOp op m l) ∧
      ∀ w x y, intOp w op x y = intOp w op y x := by
  cases op
  case add =>
    exact ⟨rfl, fun l m => congrArg some (BitVec.add_comm l m),
      fun _ x y => congrArg some (Int.add_comm x y)⟩
  case mul =>
    exact ⟨rfl, fun l m => congrArg some (BitVec.mul_comm l m),
      fun _ x y => congrArg some (Int.mul_comm x y)⟩
  case and =>
    exact ⟨rfl, fun l m => congrArg some (BitVec.and_comm l m),
      fun _ _ _ => congrArg (fun l => some (BitVec.toInt l)) (BitVec.and_comm _ _)⟩
  case or =>
    exact ⟨rfl, fun l m => congrArg some (BitVec.or_comm l m),
      fun _ _ _ => congrArg (fun l => some (BitVec.toInt l)) (BitVec.or_comm _ _)⟩
  case xor =>
    exact ⟨rfl, fun l m => congrArg some (BitVec.xor_comm l m),
      fun _ _ _ => congrArg (fun l => some (BitVec.toInt l)) (BitVec.xor_comm _ _)⟩
  all_goals cases h

/-- `0 << x`, `0 >> x` and `-1 >> x`. -/
theorem wordOp_fixed {w : Nat} {m r : BitVec w} (h : wordOp op (BitVec.ofInt w x) m =
    some r) (hfixed : (x = 0 ∧ op.isShift = true) ∨ (x = -1 ∧ op = .sar)) :
    r = BitVec.ofInt w x := by
  rcases hfixed with ⟨rfl, hs⟩ | ⟨rfl, rfl⟩
  · cases op
    case shl => exact (eq_of_then h).trans (BitVec.zero_shiftLeft _)
    case shr => exact (eq_of_then h).trans BitVec.zero_ushiftRight
    case sar => exact (eq_of_then h).trans BitVec.zero_sshiftRight
    all_goals cases hs
  · have hminus : BitVec.ofInt w (-1) = BitVec.allOnes w := by
      rw [BitVec.ofInt_neg, ← BitVec.neg_one_eq_allOnes]
      rfl
    have hr := eq_of_then h
    rw [hminus] at hr ⊢
    rw [hr]
    apply BitVec.eq_of_getLsbD_eq
    intro i hi
    rw [BitVec.getLsbD_sshiftRight, BitVec.msb_allOnes (by omega)]
    simp [hi]

/-- What an operation stands on: both operands do, and they are in the range
that their type reads. -/
structure Ready (env : Env) (op : Op) (t1 t2 : CType) (v1 v2 : Value)
    (x y : Int) : Prop where
  wide : t2.isLLong = (!op.isShift && t1.isLLong)
  reads : op.reads ≠ some !t1.unsigned
  left : InRange t1.unsigned t1.width x
  right : InRange t2.unsigned t2.width y
  range : op.modular = false → InRange t1.unsigned t1.width y
  stands1 : Stands env t1.width v1 x
  stands2 : Stands env t2.width v2 y
  narrow1 : v1.addend?.isSome = true → t1.isLLong = false
  narrow2 : v2.addend?.isSome = true → t2.isLLong = false

theorem Ready.countWidth_eq {v1 v2 : Value} (h : Ready env op t1 t2 v1 v2 x y) :
    countWidth op t1 = t2.width := by
  rw [countWidth, CType.width, CType.width, h.wide]
  cases op.isShift <;> rfl

/-- An operation that is not computed. -/
theorem reduce_stands (cw : Bool) {v1 v2 : Value} {l1 l2 : Option DWord}
    (h : Ready env op t1 t2 v1 v2 x y)
    (hl1 : ∀ l, l1 = some l → l = BitVec.ofInt 64 x)
    (hl2 : ∀ l, l2 = some l → l = BitVec.ofInt 64 y)
    (hnone : l2 = none → v2.const? = none)
    (hz : intOp t1.width op x y = some z) :
    Stands env t1.width (reduce cw op t1 t2 v1 v2 l1 l2) z := by
  obtain ⟨hwide1, hwide2⟩ := isLLong_of_hwide h.wide
  have hword := wordOp_ofInt (width_le t1).1 (width_le t1).2 h.reads h.left h.range hz
  have hstands2 : Stands env (countWidth op t1) v2 y :=
    h.countWidth_eq ▸ h.stands2
  rw [reduce]
  by_cases hswap : (l1.isSome && op.commutes) = true
  · obtain ⟨hsome, hcomm⟩ := Bool.and_eq_true_iff.1 hswap
    obtain ⟨l, rfl⟩ := Option.isSome_iff_exists.1 hsome
    obtain ⟨hs, hwcomm, hicomm⟩ := commutes_cases hcomm
    have hsar : op ≠ .sar := by
      rintro rfl
      cases hs
    have hcw : countWidth op t1 = t1.width := by rw [countWidth, hs]; rfl
    have hnarrow : v2.addend?.isSome = true → t1.isLLong = false := fun hv =>
      (hwide2 hs).symm.trans (h.narrow2 hv)
    simp only [hswap, if_true, hs, hsar, Bool.and_false, decide_false, Bool.or_false,
      Bool.false_eq_true, if_false]
    rw [hl1 l rfl]
    exact reduceRight_stands cw h.wide hnarrow h.reads (fun hm => ⟨h.range hm, h.left⟩)
      ((hwcomm _ _).trans hword) ((hicomm _ _ _).trans hz) (hcw ▸ hstands2)
      (hcw ▸ h.stands1)
  simp only [hswap, Bool.false_eq_true, if_false]
  split
  · case isTrue hfixed =>
      simp only [Bool.and_eq_true, Bool.or_eq_true, decide_eq_true_eq] at hfixed
      obtain ⟨-, ⟨h0, hs⟩ | ⟨h1, hs⟩⟩ := hfixed
      · have hx : BitVec.ofInt t1.width x = BitVec.ofInt t1.width 0 :=
          ofInt_of_word (k := 0) (hl1 _ h0).symm
        rw [hx] at hword
        have hr := wordOp_fixed hword (.inl ⟨rfl, hs⟩)
        exact stands_congr (hx.trans hr.symm) h.stands1
      · have hx : BitVec.ofInt t1.width x = BitVec.ofInt t1.width (-1) := by
          refine ofInt_of_word (k := -1) ((hl1 _ h1).symm.trans ?_)
          rw [BitVec.ofInt_neg]
          rfl
        rw [hx] at hword
        have hr := wordOp_fixed hword (.inr ⟨rfl, hs⟩)
        exact stands_congr (hx.trans hr.symm) h.stands1
  cases hl : l2 with
  | none =>
      refine general_stands hwide1 hword (fun hs => count_range hs hz) h.stands1
        hstands2 ?_
      intro _ hconst
      rw [hnone hl] at hconst
      cases hconst
  | some l =>
      have hly := hl2 l hl
      subst hly
      exact reduceRight_stands cw h.wide h.narrow1 h.reads
        (fun hm => ⟨h.left, h.range hm⟩) hword hz h.stands1 hstands2

theorem intOp_wide {w : Nat} (hw : w ≤ 64) (hreads : op.reads ≠ some !u)
    (hx : InRange u w x) (hz : intOp w op x y = some z) :
    intOp 64 op x y = some z := by
  have hdiv {r : Int} (h : (if y = 0 ∨ (x = -2 ^ (w - 1) ∧ y = -1) then none
      else some r) = some z) (hmin : x = -2 ^ (64 - 1) → y = -1 → x = -2 ^ (w - 1)) :
      (if y = 0 ∨ (x = -2 ^ (64 - 1) ∧ y = -1) then none else some r) = some z := by
    rw [← h]
    have hiff : (y = 0 ∨ (x = -2 ^ (64 - 1) ∧ y = -1)) →
        (y = 0 ∨ (x = -2 ^ (w - 1) ∧ y = -1)) := by
      rintro (h0 | ⟨hx, hy⟩)
      · exact .inl h0
      · exact .inr ⟨hmin hx hy, hy⟩
    split at h
    · cases h
    · case isFalse hmeaning => rw [if_neg (mt hiff hmeaning), if_neg hmeaning]
  have hmin : x = -2 ^ (64 - 1) → y = -1 → x = -2 ^ (w - 1) := by
    intro hmin _
    cases u with
    | true =>
        have hlow := hx.1
        omega
    | false =>
        have hlow := hx.1
        have hle : (2 : Int) ^ (w - 1) ≤ 2 ^ (64 - 1) :=
          pow_le_pow_right₀ (by decide) (by omega)
        omega
  have hcount {r : Int} (h : (if 0 ≤ y ∧ y < (w : Int) then some r else none) = some z) :
      (if 0 ≤ y ∧ y < ((64 : Nat) : Int) then some r else none) = some z := by
    split at h
    · case isTrue hrange =>
        rw [if_pos ⟨hrange.1, by omega⟩]
        exact h
    · cases h
  cases op
  case div | udiv | mod | umod => exact hdiv hz hmin
  case shl | shr | sar => exact hcount hz
  all_goals exact hz

theorem count_mask (hs : op.isShift = true)
    (hz : intOp t1.width op x y = some z) :
    (BitVec.ofInt 64 y &&& (if t1.isLLong then 63 else 31)).toNat =
      count (BitVec.ofInt 64 y) := by
  obtain ⟨h0, hlt⟩ := count_range hs hz
  have hw := (width_le t1).2
  have hrange : InRange true 64 y := ⟨h0, by omega⟩
  have hnat := toNat_ofInt hrange
  rw [count_ofInt (Nat.le_refl 64) (by decide) h0 (by omega), BitVec.toNat_and]
  have hmask (k : Nat) (hk : (BitVec.ofInt 64 y).toNat < 2 ^ k) :
      (BitVec.ofInt 64 y).toNat &&& (2 ^ k - 1) = y.toNat := by
    rw [Nat.and_two_pow_sub_one_eq_mod, Nat.mod_eq_of_lt hk]
    omega
  rcases width_cases t1 with ⟨hl, hw⟩ | ⟨hl, hw⟩
  · rw [hl, if_pos rfl]
    exact hmask 6 (by omega)
  · rw [hl, if_neg Bool.false_ne_true]
    exact hmask 5 (by omega)

theorem setWidth_norm (t : CType) (l : DWord) :
    (norm t l).setWidth t.width = l.setWidth t.width := by
  rcases width_cases t with ⟨hl, hw⟩ | ⟨hl, hw⟩
  · rw [norm, if_pos hl]
  · rw [norm_eq hl, hw]
    split
    · exact BitVec.setWidth_setWidth_of_le (low l) (by decide)
    · exact setWidth_signExtend (by decide) (low l)

/-- An operation that is computed. -/
theorem fold_stands {shm : DWord} (hshm : shm = if t1.isLLong then 63 else 31)
    {v1 v2 : Value} (h : Ready env op t1 t2 v1 v2 x y)
    (hz : intOp t1.width op x y = some z) :
    Stands env t1.width (.const (norm t1 (foldConst op shm (BitVec.ofInt 64 x)
      (BitVec.ofInt 64 y)))) z := by
  subst hshm
  have hle := (width_le t1).2
  have hword := wordOp_ofInt (by decide) (Nat.le_refl 64) h.reads
    (inRange_mono hle h.left) (fun hm => inRange_mono hle (h.range hm))
    (intOp_wide hle h.reads h.left hz)
  refine ⟨_, rfl, ?_⟩
  rw [setWidth_norm, foldConst_eq (fun hs => count_mask hs hz) hword,
    ofInt_setWidth hle]

theorem const_of_stands {t : CType} {v : Value} (hx : InRange t.unsigned t.width x)
    (hv : Stands env t.width v x) {l : DWord} (hl : v.const?.map (norm t) = some l) :
    l = BitVec.ofInt 64 x := by
  cases v with
  | const i =>
      cases hl
      obtain ⟨_, hword, hi⟩ := hv
      cases hword
      exact norm_of_agrees hi hx
  | sym s i => cases hl
  | frame i => cases hl
  | var s i => cases hl
  | opi op a b => cases hl
  | opl op a b => cases hl
  | widen s a => cases hl

theorem divides_ne_zero (h : op.divides = true) {w : Nat}
    (hz : intOp w op x y = some z) : y ≠ 0 := by
  rintro rfl
  cases op
  case div | udiv | mod | umod | pdiv =>
    simp [intOp] at hz
  all_goals cases h

/-- **`gen_opic` keeps the meaning of an operation.** -/
theorem genOpic_stands (cw : Bool) {v1 v2 : Value}
    (h : Ready env op t1 t2 v1 v2 x y) (hz : intOp t1.width op x y = some z) :
    ∃ v, genOpic cw op t1 t2 v1 v2 = .ok v ∧ Stands env t1.width v z := by
  have hl1 {l : DWord} : v1.const?.map (norm t1) = some l → l = BitVec.ofInt 64 x :=
    const_of_stands h.left h.stands1
  have hl2 {l : DWord} : v2.const?.map (norm t2) = some l → l = BitVec.ofInt 64 y :=
    const_of_stands h.right h.stands2
  have hnone : v2.const?.map (norm t2) = none → v2.const? = none :=
    Option.map_eq_none_iff.1
  have hleft : Stands env t1.width (reduce cw op t1 t2 v1 v2 (v1.const?.map (norm t1))
      (v2.const?.map (norm t2))) z :=
    reduce_stands cw h (fun _ => hl1) (fun _ => hl2) hnone hz
  rw [genOpic]
  cases h2 : v2.const?.map (norm t2) with
  | none =>
      rw [h2] at hleft
      cases h1 : v1.const?.map (norm t1) with
      | none => exact ⟨_, rfl, h1 ▸ hleft⟩
      | some l1 => exact ⟨_, rfl, h1 ▸ hleft⟩
  | some l2 =>
      rw [h2] at hleft
      cases h1 : v1.const?.map (norm t1) with
      | none => exact ⟨_, rfl, h1 ▸ hleft⟩
      | some l1 =>
          obtain rfl := hl1 h1
          obtain rfl := hl2 h2
          have hdiv : (op.divides && decide (BitVec.ofInt 64 y = 0)) = false := by
            rw [Bool.and_eq_false_imp]
            intro hdiv
            rw [decide_eq_false_iff_not]
            intro hy0
            have hzero : (0 : DWord) = BitVec.ofInt 64 0 := rfl
            have hy := inRange_mono (width_le t2).2 h.right
            rw [hzero, ofInt_inj (by decide) hy (zero_inRange _ 64)] at hy0
            exact divides_ne_zero hdiv hz hy0
          exact ⟨_, if_neg (Bool.eq_false_iff.1 hdiv), fold_stands rfl h hz⟩

end Reduce

/-! ## Addresses -/

/-- A kind of address, which no operation makes. -/
structure Address (P : Value → Prop) : Prop where
  const (i : DWord) : ¬ P (.const i)
  opi (op : Op) (a b : Value) : ¬ P (.opi op a b)
  opl (op : Op) (a b : Value) : ¬ P (.opl op a b)
  withAddend (a : Value) (i : DWord) : P (a.withAddend i) → P a

section Address

variable {P : Value → Prop} {t1 t2 : CType} {op : Op} {a b v1 v2 v : Value}
  {l2 : DWord}

theorem addend_address : Address fun v => v.addend?.isSome = true where
  const _ h := by cases h
  opi _ _ _ h := by cases h
  opl _ _ _ h := by cases h
  withAddend a _ h := by
    cases a with
    | sym s j => rfl
    | frame j => rfl
    | const j => exact h
    | var t x => exact h
    | opi op a b => exact h
    | opl op a b => exact h
    | widen u a => exact h

theorem Address.general (hP : Address P) : ¬ P (general t1 t2 op a b) := by
  rw [GenOp.general]
  split
  · exact hP.opl op a b
  · exact hP.opi op a b

theorem decides_cases (h : decides op t2 l2 = true) :
    op.isTest = false ∧ op.isShift = false := by
  cases op
  case and | mul | or | mod | umod => exact ⟨rfl, rfl⟩
  all_goals simp [decides] at h

theorem drops_cases (h : drops op t2 l2 = true) : op.isTest = false := by
  cases op
  case ult | uge | eq | ne | ule | ugt | lt | ge | le | gt =>
    simp [drops, Op.isShift] at h
  all_goals rfl

/-- The operand that an operation may leave as it is. -/
def Leaves (P : Value → Prop) (op : Op) (v1 v2 : Value) : Prop :=
  op.isTest = false ∧ (P v1 ∨ (op.isShift = false ∧ P v2))

theorem Address.reduceRight (hP : Address P) (cw : Bool)
    (h : P (reduceRight cw op t1 t2 a b l2)) : Leaves P op a b := by
  have hoffset {p : Prop} [Decidable p] {d : DWord}
      (h : P (if p then GenOp.general t1 t2 op a b else a.withAddend d)) : P a := by
    split at h
    · exact (hP.general h).elim
    · exact hP.withAddend _ _ h
  rw [GenOp.reduceRight] at h
  split at h
  · case isTrue hdec =>
      obtain ⟨htest, hshift⟩ := decides_cases (Bool.and_eq_true_iff.1 hdec).2
      split at h
      · exact (hP.const _ h).elim
      · exact ⟨htest, .inr ⟨hshift, h⟩⟩
  split at h
  · case isTrue hdrop => exact ⟨drops_cases hdrop, .inl h⟩
  split at h
  · split at h
    · exact (hP.general h).elim
    · exact (hP.general h).elim
  split at h
  · case isTrue hop =>
      have htest : op.isTest = false := by
        rw [Bool.or_eq_true, decide_eq_true_iff, decide_eq_true_iff] at hop
        rcases hop with rfl | rfl <;> rfl
      split at h
      · exact (hP.general h).elim
      · exact ⟨htest, .inl (hoffset h)⟩
  · exact (hP.general h).elim

theorem Address.reduce (hP : Address P) (cw : Bool) {l1 l2 : Option DWord}
    (h : P (reduce cw op t1 t2 v1 v2 l1 l2)) : Leaves P op v1 v2 := by
  have hfixed {p q : Bool}
      (h : (!cw && ((p && op.isShift) || (q && decide (op = .sar)))) = true) :
      op.isTest = false := by
    simp only [Bool.and_eq_true, Bool.or_eq_true, decide_eq_true_eq] at h
    rcases h.2 with ⟨-, hs⟩ | ⟨-, rfl⟩
    · cases op
      case shl | shr | sar => rfl
      all_goals cases hs
    · rfl
  rw [GenOp.reduce] at h
  by_cases hswap : (l1.isSome && op.commutes) = true
  · have hs := (commutes_cases (Bool.and_eq_true_iff.1 hswap).2).1
    simp only [hswap, if_true] at h
    split at h
    · case isTrue hfix => exact ⟨hfixed hfix, .inr ⟨hs, h⟩⟩
    split at h
    · exact (hP.general h).elim
    · obtain ⟨htest, h | h⟩ := hP.reduceRight cw h
      · exact ⟨htest, .inr ⟨hs, h⟩⟩
      · exact ⟨htest, .inl h.2⟩
  · simp only [hswap, Bool.false_eq_true, if_false] at h
    split at h
    · case isTrue hfix => exact ⟨hfixed hfix, .inl h⟩
    split at h
    · exact (hP.general h).elim
    · exact hP.reduceRight cw h

/-- What comes out of `gen_opic` is an address only if an operand is one. -/
theorem Address.genOpic (hP : Address P) {cw : Bool}
    (hv : genOpic cw op t1 t2 v1 v2 = .ok v) (h : P v) : Leaves P op v1 v2 := by
  rw [GenOp.genOpic] at hv
  split at hv
  · split at hv
    · split at hv
      · cases hv
      · cases hv
        exact (hP.general h).elim
    · cases hv
      exact (hP.const _ h).elim
  · cases hv
    exact hP.reduce cw h

end Address
end Bucktoot.Ports.GenOp
