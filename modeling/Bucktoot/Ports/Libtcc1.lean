import Bucktoot.Verified.Limbs

/-!
# `libtcc1.c`: 64-bit division and shifts on a 32-bit machine

A compiled script calls these functions for what the code generator does not
put in line.  The instructions `div`, `mul`, `sub` with `sbb`, and `bsr` behind
the macros are those of the i386; `div` raises an exception when the divisor is
zero or the quotient does not fit, which is `none` here.

* `udivmoddi4_eq` — quotient and remainder of any two words, and the exception
  exactly for a divisor of zero: the trial digit needs one correction at most;
* `divdi3_eq`, `moddi3_eq` — the signed ones truncate;
* `ashldi3_eq`, `lshrdi3_eq`, `ashrdi3_eq` — shifts by `0 … 63`.
-/

namespace Bucktoot.Ports.Libtcc1

open Bucktoot.Verified

/-- `UWtype`. -/
abbrev Word := BitVec 32

/-- `UDWtype`. -/
abbrev DWord := BitVec 64

/-- `s.low` of a `DWunion`. -/
def low (x : DWord) : Word := Limbs.low (w := 32) x

/-- `s.high` of a `DWunion`. -/
def high (x : DWord) : Word := Limbs.high (w := 32) x

/-- `ll` of a `DWunion`. -/
def pack (h l : Word) : DWord := h ++ l

theorem toNat_pack (h l : Word) :
    (pack h l).toNat = h.toNat * 2 ^ 32 + l.toNat :=
  Limbs.toNat_pack h l

theorem toNat_halves (x : DWord) :
    (high x).toNat * 2 ^ 32 + (low x).toNat = x.toNat :=
  Limbs.toNat_halves (w := 32) x

theorem pack_halves (x : DWord) : pack (high x) (low x) = x :=
  Limbs.pack_halves (w := 32) x

theorem low_pack (h l : Word) : low (pack h l) = l := Limbs.low_pack h l

theorem high_pack (h l : Word) : high (pack h l) = h := Limbs.high_pack h l

/-! ## The instructions -/

/-- `sub` of the low words and `sbb` of the high ones. -/
def subDdmmss (ah al bh bl : Word) : Word × Word :=
  (ah - bh - (if al < bl then 1 else 0), al - bl)

/-- `mul`. -/
def umulPpmm (u v : Word) : Word × Word :=
  let w := u.toNat * v.toNat
  (BitVec.ofNat 32 (w / 2 ^ 32), BitVec.ofNat 32 w)

/-- `div`. -/
def udivQrnnd (n1 n0 dv : Word) : Option (Word × Word) :=
  if dv ≤ n1 then none
  else
    let n := n1.toNat * 2 ^ 32 + n0.toNat
    some (BitVec.ofNat 32 (n / dv.toNat), BitVec.ofNat 32 (n % dv.toNat))

/-- `bsr` and `xor` with 31. -/
def countLeadingZeros (x : Word) : Nat := Nat.log2 x.toNat ^^^ 31

/-! ## The functions -/

/-- The quotient and the remainder of the normalized words in
`__udivmoddi4`. -/
def trialDivide (n2 n1 n0 d1 d0 : Word) : Option (Word × Word × Word) := do
  let (q0, n1) ← udivQrnnd n2 n1 d1
  let (m1, m0) := umulPpmm q0 d0
  if m1 > n1 ∨ (m1 = n1 ∧ m0 > n0) then
    let (m1, m0) := subDdmmss m1 m0 d1 d0
    some (q0 - 1, subDdmmss n1 n0 m1 m0)
  else some (q0, subDdmmss n1 n0 m1 m0)

/-- `__udivmoddi4`: the quotient and what is left in `*rp`. -/
def udivmoddi4 (n d : DWord) : Option (DWord × DWord) :=
  let d0 := low d
  let d1 := high d
  let n0 := low n
  let n1 := high n
  if d1 = 0 then
    if d0 > n1 then do
      let (q0, n0) ← udivQrnnd n1 n0 d0
      some (pack 0 q0, pack 0 n0)
    else if d0 = 0 then none
    else do
      let (q1, n1) ← udivQrnnd 0 n1 d0
      let (q0, n0) ← udivQrnnd n1 n0 d0
      some (pack q1 q0, pack 0 n0)
  else if d1 > n1 then some (pack 0 0, pack n1 n0)
  else
    let bm := countLeadingZeros d1
    if bm = 0 then
      if n1 > d1 ∨ n0 ≥ d0 then
        let (n1, n0) := subDdmmss n1 n0 d1 d0
        some (pack 0 1, pack n1 n0)
      else some (pack 0 0, pack n1 n0)
    else
      let b := 32 - bm
      let d1 := (d1 <<< bm) ||| (d0 >>> b)
      let d0 := d0 <<< bm
      let n2 := n1 >>> b
      let n1 := (n1 <<< bm) ||| (n0 >>> b)
      let n0 := n0 <<< bm
      (trialDivide n2 n1 n0 d1 d0).map fun (q0, n1, n0) =>
        (pack 0 q0, pack (n1 >>> bm) ((n1 <<< b) ||| (n0 >>> bm)))

/-- `__udivdi3` -/
def udivdi3 (u v : DWord) : Option DWord := (udivmoddi4 u v).map Prod.fst

/-- `__umoddi3` -/
def umoddi3 (u v : DWord) : Option DWord := (udivmoddi4 u v).map Prod.snd

/-- `__divdi3` -/
def divdi3 (u v : DWord) : Option DWord :=
  let (c, uu) := if (high u).toInt < 0 then (true, -u) else (false, u)
  let (c, vv) := if (high v).toInt < 0 then (!c, -v) else (c, v)
  (udivmoddi4 uu vv).map fun w => if c then -w.1 else w.1

/-- `__moddi3` -/
def moddi3 (u v : DWord) : Option DWord :=
  let (c, uu) := if (high u).toInt < 0 then (true, -u) else (false, u)
  let vv := if (high v).toInt < 0 then -v else v
  (udivmoddi4 uu vv).map fun w => if c then -w.2 else w.2

/-- `__ashrdi3` -/
def ashrdi3 (a : DWord) (b : Nat) : DWord :=
  if 32 ≤ b then
    pack ((high a).sshiftRight 31) ((high a).sshiftRight (b - 32))
  else if b ≠ 0 then
    pack ((high a).sshiftRight b) ((low a >>> b) ||| (high a <<< (32 - b)))
  else a

/-- `__lshrdi3` -/
def lshrdi3 (a : DWord) (b : Nat) : DWord :=
  if 32 ≤ b then pack 0 (high a >>> (b - 32))
  else if b ≠ 0 then
    pack (high a >>> b) ((low a >>> b) ||| (high a <<< (32 - b)))
  else a

/-- `__ashldi3` -/
def ashldi3 (a : DWord) (b : Nat) : DWord :=
  if 32 ≤ b then pack (low a <<< (b - 32)) 0
  else if b ≠ 0 then
    pack ((high a <<< b) ||| (low a >>> (32 - b))) (low a <<< b)
  else a

/-! ## What the instructions do -/

theorem subDdmmss_eq (ah al bh bl : Word) :
    pack (subDdmmss ah al bh bl).1 (subDdmmss ah al bh bl).2 =
      pack ah al - pack bh bl := by
  apply BitVec.eq_of_toNat_eq
  have hal := al.isLt
  have hbl := bl.isLt
  simp only [subDdmmss, toNat_pack, BitVec.toNat_sub]
  by_cases hborrow : al < bl
  · rw [if_pos hborrow]
    rw [BitVec.lt_def] at hborrow
    have hbit : (1 : Word).toNat = 1 := rfl
    omega
  · rw [if_neg hborrow]
    rw [BitVec.lt_def] at hborrow
    have hbit : (0 : Word).toNat = 0 := rfl
    omega

theorem umulPpmm_eq (u v : Word) :
    (umulPpmm u v).1.toNat * 2 ^ 32 + (umulPpmm u v).2.toNat =
      u.toNat * v.toNat := by
  have hlt : u.toNat * v.toNat < 2 ^ 32 * 2 ^ 32 :=
    Nat.mul_lt_mul'' u.isLt v.isLt
  simp only [umulPpmm, BitVec.toNat_ofNat]
  omega

theorem udivQrnnd_eq {n1 dv : Word} (n0 : Word) (h : n1.toNat < dv.toNat) :
    ∃ q r, udivQrnnd n1 n0 dv = some (q, r) ∧
      q.toNat = (n1.toNat * 2 ^ 32 + n0.toNat) / dv.toNat ∧
      r.toNat = (n1.toNat * 2 ^ 32 + n0.toNat) % dv.toNat := by
  have hdv := dv.isLt
  have hn0 := n0.isLt
  refine ⟨_, _, if_neg (BitVec.not_le.2 h), ?_, ?_⟩
  · rw [BitVec.toNat_ofNat]
    refine Nat.mod_eq_of_lt (Nat.div_lt_of_lt_mul ?_)
    have hroom := Nat.mul_le_mul_right (2 ^ 32) h
    rw [Nat.succ_mul] at hroom
    omega
  · rw [BitVec.toNat_ofNat]
    exact Nat.mod_eq_of_lt ((Nat.mod_lt _ (by omega)).trans hdv)

theorem countLeadingZeros_eq {x : Word} (h : x ≠ 0) :
    countLeadingZeros x ≤ 31 ∧ 2 ^ 31 ≤ x.toNat * 2 ^ countLeadingZeros x ∧
      x.toNat * 2 ^ countLeadingZeros x < 2 ^ 32 := by
  have hx : x.toNat ≠ 0 := fun h0 => h (BitVec.eq_of_toNat_eq h0)
  have hlog : Nat.log2 x.toNat < 32 := (Nat.log2_lt hx).2 x.isLt
  have hxor : ∀ k < 32, k ^^^ 31 = 31 - k := by decide
  have hcount : countLeadingZeros x = 31 - Nat.log2 x.toNat := hxor _ hlog
  refine ⟨by omega, ?_, ?_⟩
  · calc 2 ^ 31 = 2 ^ Nat.log2 x.toNat * 2 ^ countLeadingZeros x := by
          rw [hcount, ← Nat.pow_add]
          congr 1
          omega
      _ ≤ x.toNat * 2 ^ countLeadingZeros x :=
          Nat.mul_le_mul_right _ (Nat.log2_self_le hx)
  · calc x.toNat * 2 ^ countLeadingZeros x
        < 2 ^ (Nat.log2 x.toNat + 1) * 2 ^ countLeadingZeros x :=
          Nat.mul_lt_mul_of_pos_right Nat.lt_log2_self (Nat.two_pow_pos _)
      _ = 2 ^ 32 := by
          rw [hcount, ← Nat.pow_add]
          congr 1
          omega

/-! ## Division -/

section Division

variable {n d : DWord}

theorem pack_eq {h l : Word} {x : DWord}
    (hx : h.toNat * 2 ^ 32 + l.toNat = x.toNat) : pack h l = x :=
  BitVec.eq_of_toNat_eq ((toNat_pack h l).trans hx)

theorem toNat_zero_word : (0 : Word).toNat = 0 := rfl

/-- The divisor is one word long. -/
theorem udivmoddi4_word (hd1 : high d = 0) (hd0 : low d ≠ 0) :
    udivmoddi4 n d = some (n / d, n % d) := by
  have hd := toNat_halves d
  have hn := toNat_halves n
  rw [hd1, toNat_zero_word, Nat.zero_mul, Nat.zero_add] at hd
  by_cases hlt : (high n).toNat < (low d).toNat
  · obtain ⟨q, r, hdiv, hq, hr⟩ := udivQrnnd_eq (low n) hlt
    rw [hn, hd] at hq hr
    have hquot : pack 0 q = n / d := pack_eq (by
      rw [toNat_zero_word, Nat.zero_mul, Nat.zero_add, hq, BitVec.toNat_udiv])
    have hrem : pack 0 r = n % d := pack_eq (by
      rw [toNat_zero_word, Nat.zero_mul, Nat.zero_add, hr, BitVec.toNat_umod])
    rw [udivmoddi4, if_pos hd1, if_pos (BitVec.lt_def.2 hlt), hdiv, ← hquot,
      ← hrem]
    rfl
  · have hpos : (0 : Word).toNat < (low d).toNat :=
      Nat.pos_of_ne_zero fun h0 => hd0 (BitVec.eq_of_toNat_eq h0)
    obtain ⟨q1, r1, hdiv1, hq1, hr1⟩ := udivQrnnd_eq (high n) hpos
    rw [toNat_zero_word, Nat.zero_mul, Nat.zero_add] at hq1 hr1
    have hr1lt : r1.toNat < (low d).toNat := by
      rw [hr1]
      exact Nat.mod_lt _ hpos
    obtain ⟨q0, r0, hdiv0, hq0, hr0⟩ := udivQrnnd_eq (low n) hr1lt
    have hquot : pack q1 q0 = n / d := pack_eq (by
      rw [hq1, hq0, hr1, ← Limbs.div_limbs, hn, hd, BitVec.toNat_udiv])
    have hrem : pack 0 r0 = n % d := pack_eq (by
      rw [toNat_zero_word, Nat.zero_mul, Nat.zero_add, hr0, hr1,
        ← Limbs.mod_limbs, hn, hd, BitVec.toNat_umod])
    rw [udivmoddi4, if_pos hd1, if_neg (mt BitVec.lt_def.1 hlt), if_neg hd0,
      ← hquot, ← hrem]
    simp only [hdiv1, hdiv0, Option.bind_eq_bind, Option.bind_some]

/-- The divisor is the larger one. -/
theorem udivmoddi4_small (hd1 : high d ≠ 0) (hlt : high n < high d) :
    udivmoddi4 n d = some (n / d, n % d) := by
  have hnd : n.toNat < d.toNat := by
    rw [BitVec.lt_def] at hlt
    have hd := toNat_halves d
    have hn := toNat_halves n
    have hn0 := (low n).isLt
    omega
  have hquot : pack 0 0 = n / d := pack_eq (by
    rw [BitVec.toNat_udiv, Nat.div_eq_of_lt hnd]
    rfl)
  have hrem : n = n % d := BitVec.eq_of_toNat_eq (by
    rw [BitVec.toNat_umod, Nat.mod_eq_of_lt hnd])
  rw [udivmoddi4, if_neg hd1, if_pos hlt, pack_halves, hquot]
  exact congrArg (fun r => some (n / d, r)) hrem

/-- The quotient is one at most. -/
theorem udivmoddi4_one (hd1 : high d ≠ 0) (hge : ¬ high n < high d)
    (hbm : countLeadingZeros (high d) = 0) :
    udivmoddi4 n d = some (n / d, n % d) := by
  have hhalf := (countLeadingZeros_eq hd1).2.1
  rw [hbm, Nat.pow_zero, Nat.mul_one] at hhalf
  have hd := toNat_halves d
  have hn := toNat_halves n
  have hd0 := (low d).isLt
  have hn0 := (low n).isLt
  have hn1 := (high n).isLt
  have hge' := mt BitVec.lt_def.2 hge
  rw [udivmoddi4, if_neg hd1, if_neg hge, if_pos hbm]
  have hcmp : (high n > high d ∨ low n ≥ low d) ↔ d.toNat ≤ n.toNat := by
    rw [gt_iff_lt, ge_iff_le, BitVec.lt_def, BitVec.le_def]
    omega
  by_cases hle : d.toNat ≤ n.toNat
  · have hdm := (Nat.div_mod_unique (a := n.toNat) (b := d.toNat) (d := 1)
      (c := n.toNat - d.toNat) (by omega)).2 ⟨by omega, by omega⟩
    have hsub := subDdmmss_eq (high n) (low n) (high d) (low d)
    rw [pack_halves, pack_halves] at hsub
    have hquot : pack 0 1 = n / d := pack_eq (by
      rw [BitVec.toNat_udiv, hdm.1]
      rfl)
    have hrem : n - d = n % d := BitVec.eq_of_toNat_eq (by
      rw [BitVec.toNat_umod, hdm.2, BitVec.toNat_sub_of_le hle])
    rw [if_pos (hcmp.2 hle), ← hquot, ← hrem, ← hsub]
  · have hlt := Nat.not_le.1 hle
    have hquot : pack 0 0 = n / d := pack_eq (by
      rw [BitVec.toNat_udiv, Nat.div_eq_of_lt hlt]
      rfl)
    have hrem : n = n % d := BitVec.eq_of_toNat_eq (by
      rw [BitVec.toNat_umod, Nat.mod_eq_of_lt hlt])
    rw [if_neg (mt hcmp.1 hle), pack_halves, hquot]
    exact congrArg (fun r => some (n / d, r)) hrem

/-- The three words of a dividend that is shifted to the left. -/
theorem toNat_shifted (n : DWord) {k : Nat} (hk : k ≤ 32) :
    ((high n >>> (32 - k)).toNat * 2 ^ 32 +
        ((high n <<< k) ||| (low n >>> (32 - k))).toNat) * 2 ^ 32 +
      (low n <<< k).toNat = n.toNat * 2 ^ k := by
  have hpow : 2 ^ 32 * 2 ^ (32 - k) * 2 ^ k = 2 ^ 64 := by
    rw [← Nat.pow_add, ← Nat.pow_add]
    congr 1
    omega
  have htop : (high n >>> (32 - k)).toNat = n.toNat * 2 ^ k / 2 ^ 64 := by
    have hhigh : (high n).toNat = n.toNat / 2 ^ 32 :=
      Limbs.toNat_high (w := 32) n
    rw [BitVec.toNat_ushiftRight, Nat.shiftRight_eq_div_pow, hhigh, ← hpow,
      Nat.mul_div_mul_right _ _ (Nat.two_pow_pos k), Nat.div_div_eq_div_mul]
  have hrest : ((high n <<< k) ||| (low n >>> (32 - k))).toNat * 2 ^ 32 +
      (low n <<< k).toNat = n.toNat * 2 ^ k % 2 ^ 64 := by
    rw [← toNat_pack, ← Nat.shiftLeft_eq, ← BitVec.toNat_shiftLeft]
    congr 1
    rw [pack, Limbs.shiftLeft_pack _ _ hk, ← pack, pack_halves]
  have hsquare : 2 ^ 32 * 2 ^ 32 = 2 ^ 64 := rfl
  rw [Nat.add_mul, Nat.add_assoc, hrest, htop, Nat.mul_assoc, hsquare,
    Nat.div_add_mod']

/-- The upper word of a divisor whose highest bit is set gives the quotient, or
one more than the quotient. -/
theorem trialDivide_eq {n2 d0 : Word} (n1 n0 d1 : Word) {s : Nat}
    (hn2 : n2.toNat < s) (hd0 : d0.toNat + s ≤ 2 ^ 32) (hhalf : 2 ^ 32 ≤ 2 * d1.toNat)
    (hs : s ≤ 2 ^ 31) :
    ∃ q h l, trialDivide n2 n1 n0 d1 d0 = some (q, h, l) ∧
      q.toNat = ((n2.toNat * 2 ^ 32 + n1.toNat) * 2 ^ 32 + n0.toNat) /
        (d1.toNat * 2 ^ 32 + d0.toNat) ∧
      (pack h l).toNat = ((n2.toNat * 2 ^ 32 + n1.toNat) * 2 ^ 32 + n0.toNat) %
        (d1.toNat * 2 ^ 32 + d0.toNat) := by
  have hn0 := n0.isLt
  obtain ⟨q, r, hdiv, hq, hr⟩ := udivQrnnd_eq n1
    (show n2.toNat < d1.toNat by omega)
  have hrlt : r.toNat < d1.toNat := by
    rw [hr]
    exact Nat.mod_lt _ (by omega)
  have hdigit : d1.toNat * q.toNat + r.toNat =
      n2.toNat * 2 ^ 32 + n1.toNat := by
    rw [hq, hr]
    exact Nat.div_add_mod _ _
  have hone : q.toNat * d0.toNat ≤
      r.toNat * 2 ^ 32 + n0.toNat + (d1.toNat * 2 ^ 32 + d0.toNat) :=
    calc q.toNat * d0.toNat ≤ d1.toNat * 2 ^ 32 :=
          Limbs.trial_one hdigit n1.isLt hn2 hd0 hhalf
      _ ≤ d1.toNat * 2 ^ 32 + d0.toNat := Nat.le_add_right _ _
      _ ≤ _ := Nat.le_add_left _ _
  have hmul := umulPpmm_eq q d0
  have hcmp : (umulPpmm q d0).1 > r ∨
      ((umulPpmm q d0).1 = r ∧ (umulPpmm q d0).2 > n0) ↔
      r.toNat * 2 ^ 32 + n0.toNat < q.toNat * d0.toNat := by
    have hm0 := (umulPpmm q d0).2.isLt
    rw [← hmul, gt_iff_lt, gt_iff_lt, BitVec.lt_def, BitVec.lt_def,
      ← BitVec.toNat_inj]
    omega
  have hm : (pack (umulPpmm q d0).1 (umulPpmm q d0).2).toNat =
      q.toNat * d0.toNat := (toNat_pack _ _).trans hmul
  have hrn : (pack r n0).toNat = r.toNat * 2 ^ 32 + n0.toNat := toNat_pack r n0
  have hdd : (pack d1 d0).toNat = d1.toNat * 2 ^ 32 + d0.toNat :=
    toNat_pack d1 d0
  have hd1 := d1.isLt
  have hd0lt := d0.isLt
  simp only [trialDivide, hdiv, Option.bind_eq_bind, Option.bind_some]
  by_cases hover : r.toNat * 2 ^ 32 + n0.toNat < q.toNat * d0.toNat
  · obtain ⟨hquot, hrem⟩ := Limbs.trial_gt hdigit hover hone
    have hback := subDdmmss_eq (umulPpmm q d0).1 (umulPpmm q d0).2 d1 d0
    have hleft := subDdmmss_eq r n0
      (subDdmmss (umulPpmm q d0).1 (umulPpmm q d0).2 d1 d0).1
      (subDdmmss (umulPpmm q d0).1 (umulPpmm q d0).2 d1 d0).2
    rw [if_pos (hcmp.2 hover), hquot, hrem]
    refine ⟨_, _, _, rfl, ?_, ?_⟩
    · have hq1 : 1 ≤ q.toNat := by
        by_contra hq1
        rw [Nat.lt_one_iff.1 (Nat.not_le.1 hq1), Nat.zero_mul] at hover
        omega
      rw [BitVec.toNat_sub_of_le hq1]
      rfl
    · refine (congrArg BitVec.toNat hleft).trans ?_
      rw [hback, BitVec.toNat_sub, BitVec.toNat_sub, hm, hrn, hdd]
      omega
  · have hfits := Nat.not_lt.1 hover
    obtain ⟨hquot, hrem⟩ := Limbs.trial_le hdigit hrlt hn0 hfits
    have hleft := subDdmmss_eq r n0 (umulPpmm q d0).1 (umulPpmm q d0).2
    rw [if_neg (mt hcmp.1 hover), hquot, hrem]
    refine ⟨_, _, _, rfl, rfl, (congrArg BitVec.toNat hleft).trans ?_⟩
    rw [BitVec.toNat_sub, hm, hrn]
    omega

/-- The divisor is shifted to the left until its highest bit is set. -/
theorem udivmoddi4_normalized (hd1 : high d ≠ 0) (hge : ¬ high n < high d)
    (hbm : countLeadingZeros (high d) ≠ 0) :
    udivmoddi4 n d = some (n / d, n % d) := by
  obtain ⟨hbits, hhalf, hroom⟩ := countLeadingZeros_eq hd1
  rw [udivmoddi4, if_neg hd1, if_neg hge, if_neg hbm]
  dsimp only
  generalize countLeadingZeros (high d) = bm at hbits hhalf hroom ⊢
  have hpow : 2 ^ (32 - bm) * 2 ^ bm = 2 ^ 32 := by
    rw [← Nat.pow_add]
    congr 1
    omega
  have hpos := Nat.two_pow_pos bm
  have hN := toNat_shifted n (k := bm) (by omega)
  have hD := toNat_shifted d (k := bm) (by omega)
  have hdtop : (high d >>> (32 - bm)).toNat = 0 := by
    rw [BitVec.toNat_ushiftRight, Nat.shiftRight_eq_div_pow]
    refine Nat.div_eq_of_lt (Nat.lt_of_mul_lt_mul_right (a := 2 ^ bm) ?_)
    rw [hpow]
    exact hroom
  rw [hdtop, Nat.zero_mul, Nat.zero_add] at hD
  have hn2 : (high n >>> (32 - bm)).toNat < 2 ^ bm := by
    rw [BitVec.toNat_ushiftRight, Nat.shiftRight_eq_div_pow]
    refine Nat.div_lt_of_lt_mul ?_
    rw [hpow]
    exact (high n).isLt
  have hd0 : (low d <<< bm).toNat + 2 ^ bm ≤ 2 ^ 32 := by
    have hlt : (low d).toNat % 2 ^ (32 - bm) + 1 ≤ 2 ^ (32 - bm) :=
      Nat.mod_lt _ (Nat.two_pow_pos _)
    rw [BitVec.toNat_shiftLeft, Nat.shiftLeft_eq, ← hpow, Nat.mul_mod_mul_right,
      ← Nat.succ_mul]
    exact Nat.mul_le_mul_right _ hlt
  have hlarge : (high d).toNat * 2 ^ bm * 2 ^ 32 ≤ d.toNat * 2 ^ bm := by
    rw [← toNat_halves d, Nat.add_mul, Nat.mul_right_comm]
    exact Nat.le_add_right _ _
  obtain ⟨q, h, l, htrial, hquot, hrem⟩ := trialDivide_eq
    ((high n <<< bm) ||| (low n >>> (32 - bm))) (low n <<< bm)
    ((high d <<< bm) ||| (low d >>> (32 - bm))) hn2 hd0 (by omega)
    (Nat.pow_le_pow_right (by decide) hbits)
  rw [hN, hD, Nat.mul_div_mul_right _ _ hpos] at hquot
  rw [hN, hD, Nat.mul_mod_mul_right] at hrem
  have hq : pack 0 q = n / d := pack_eq (by
    rw [toNat_zero_word, Nat.zero_mul, Nat.zero_add, hquot, BitVec.toNat_udiv])
  have hr : pack (h >>> bm) ((h <<< (32 - bm)) ||| (l >>> bm)) = n % d := by
    apply BitVec.eq_of_toNat_eq
    rw [pack, Limbs.ushiftRight_pack _ _ (by omega), ← pack,
      BitVec.toNat_ushiftRight, hrem, Nat.shiftRight_eq_div_pow,
      Nat.mul_div_cancel _ hpos, BitVec.toNat_umod]
  rw [htrial, ← hq, ← hr]
  rfl

end Division

/-- `__udivmoddi4` divides, and raises the exception for a divisor of zero
only. -/
theorem udivmoddi4_eq (n d : DWord) :
    udivmoddi4 n d = if d = 0 then none else some (n / d, n % d) := by
  by_cases hd : d = 0
  · subst hd
    rfl
  · rw [if_neg hd]
    by_cases hd1 : high d = 0
    · refine udivmoddi4_word hd1 fun hd0 => hd ?_
      rw [← pack_halves d, hd1, hd0]
      rfl
    · by_cases hlt : high n < high d
      · exact udivmoddi4_small hd1 hlt
      · by_cases hbm : countLeadingZeros (high d) = 0
        · exact udivmoddi4_one hd1 hlt hbm
        · exact udivmoddi4_normalized hd1 hlt hbm

theorem udivdi3_eq (u v : DWord) :
    udivdi3 u v = if v = 0 then none else some (u / v) := by
  rw [udivdi3, udivmoddi4_eq]
  split <;> rfl

theorem umoddi3_eq (u v : DWord) :
    umoddi3 u v = if v = 0 then none else some (u % v) := by
  rw [umoddi3, udivmoddi4_eq]
  split <;> rfl

/-- The sign is that of the high word. -/
theorem high_negative (x : DWord) : (high x).toInt < 0 ↔ x.msb = true := by
  have hhalves := toNat_halves x
  have hlow := (low x).isLt
  rw [BitVec.msb_eq_toInt, decide_eq_true_iff, BitVec.toInt_neg_iff,
    BitVec.toInt_neg_iff]
  omega

/-- `__divdi3` truncates. -/
theorem divdi3_eq (u v : DWord) :
    divdi3 u v = if v = 0 then none else some (u.sdiv v) := by
  rw [divdi3, BitVec.sdiv_eq]
  by_cases hv0 : v = 0#64
  · subst hv0
    cases hu : u.msb <;> simp [high_negative, hu, udivmoddi4_eq]
  · have hneg := mt BitVec.neg_eq_zero_iff.1 hv0
    cases hu : u.msb <;> cases hv : v.msb <;>
      simp [high_negative, hu, hv, udivmoddi4_eq, hv0, hneg]

/-- `__moddi3` leaves the sign of the dividend. -/
theorem moddi3_eq (u v : DWord) :
    moddi3 u v = if v = 0 then none else some (u.srem v) := by
  rw [moddi3, BitVec.srem_eq]
  by_cases hv0 : v = 0#64
  · subst hv0
    cases hu : u.msb <;> simp [high_negative, hu, udivmoddi4_eq]
  · have hneg := mt BitVec.neg_eq_zero_iff.1 hv0
    cases hu : u.msb <;> cases hv : v.msb <;>
      simp [high_negative, hu, hv, udivmoddi4_eq, hv0, hneg]

/-! ## Shifts -/

theorem ashldi3_eq (a : DWord) (b : Nat) : ashldi3 a b = a <<< b := by
  conv_rhs => rw [← pack_halves a]
  by_cases hb : 32 ≤ b
  · rw [ashldi3, if_pos hb]
    exact Limbs.shiftLeft_pack_word _ _ hb
  · by_cases h0 : b = 0
    · subst h0
      rw [pack_halves, BitVec.shiftLeft_zero]
      rfl
    · rw [ashldi3, if_neg hb, if_pos h0]
      exact Limbs.shiftLeft_pack _ _ (by omega)

theorem lshrdi3_eq (a : DWord) (b : Nat) : lshrdi3 a b = a >>> b := by
  conv_rhs => rw [← pack_halves a]
  by_cases hb : 32 ≤ b
  · rw [lshrdi3, if_pos hb]
    exact Limbs.ushiftRight_pack_word _ _ hb
  · by_cases h0 : b = 0
    · subst h0
      rw [pack_halves, BitVec.ushiftRight_zero]
      rfl
    · rw [lshrdi3, if_neg hb, if_pos h0, BitVec.or_comm]
      exact Limbs.ushiftRight_pack _ _ (by omega)

theorem ashrdi3_eq (a : DWord) (b : Nat) : ashrdi3 a b = a.sshiftRight b := by
  conv_rhs => rw [← pack_halves a]
  by_cases hb : 32 ≤ b
  · rw [ashrdi3, if_pos hb]
    exact Limbs.sshiftRight_pack_word _ _ hb
  · by_cases h0 : b = 0
    · subst h0
      rw [pack_halves, BitVec.sshiftRight_zero]
      rfl
    · rw [ashrdi3, if_neg hb, if_pos h0, BitVec.or_comm]
      exact Limbs.sshiftRight_pack _ _ (by omega)

/-- **The division functions of the runtime library** are those of 64-bit
machine words, for every dividend and divisor. -/
theorem runtime_division (u v : DWord) :
    udivdi3 u v = (if v = 0 then none else some (u / v)) ∧
      umoddi3 u v = (if v = 0 then none else some (u % v)) ∧
      divdi3 u v = (if v = 0 then none else some (u.sdiv v)) ∧
      moddi3 u v = (if v = 0 then none else some (u.srem v)) :=
  ⟨udivdi3_eq u v, umoddi3_eq u v, divdi3_eq u v, moddi3_eq u v⟩

end Bucktoot.Ports.Libtcc1
