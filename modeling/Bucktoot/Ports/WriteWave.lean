import Bucktoot.Ports.DeviceBuffer

/-!
# `write_wave` of `wave_player.c`

`write_wave` fills a buffer from a source that it reads as a ring, at a
position that moves by `speed` for each element, and clears what is left.  The
position is brought back to the source with `%`, but `src_count` itself is let
through, and a negative multiple of it is brought to `src_count`.  Without a
source the buffer is cleared by half, as `memset` counts bytes.

* `wrapPos_eq_emod`, `wrapPos_of_misplaced` — the index that is read, as an
  index of a ring;
* `copyPasses_dest`, `zeroPasses_dest` and so on — what the two loops do to
  the buffer;
* `fillsDest_iff` — when everything is read from the source and the buffer is
  filled.
-/

namespace Bucktoot.Ports.WriteWave

open Bucktoot.Ports.DeviceBuffer
open Bucktoot.Ports.Mixer
open Bucktoot.Ports.ReadWave

/-! ## The function -/

/-- `pos` as it is when `src[pos]` is read. -/
def wrapPos (srcCount pos : Int) : Int :=
  if pos > srcCount then pos.tmod srcCount
  else if pos < 0 then int32 (srcCount - (int32 (-pos)).tmod srcCount)
  else pos

/-- The memory behind `dest` and the variable `fpos`, which is `*src_pos` in
front of the function and behind it.  The indices at which `src` has been read
and the byte offsets of `dest` that have been written are recorded. -/
structure Copy (F : Type) where
  dest : Nat → UInt32
  fpos : F
  reads : List Int
  writes : List Nat

section Model

variable {F : Type}

/-- `dest[i]=w`. -/
def Copy.store (m : Copy F) (i : Nat) (w : UInt32) : Copy F :=
  { m with
    dest := Function.update m.dest i w
    writes := m.writes ++ [4 * i, 4 * i + 1, 4 * i + 2, 4 * i + 3] }

/-- An element after its first bytes, which are its low ones, have been
cleared. -/
def clearBytes (k : Nat) (w : UInt32) : UInt32 :=
  UInt32.ofNat (w.toNat - w.toNat % 256 ^ min k 4)

/-- `memset(dest,0,len)`. -/
def Copy.memset (m : Copy F) (len : Nat) : Copy F :=
  { m with
    dest := fun i => clearBytes (len - 4 * i) (m.dest i)
    writes := m.writes ++ List.range len }

/-- The first passes of the loop that clears, from element `i` on. -/
def zeroPasses (i : Nat) : Nat → Copy F → Copy F
  | 0, m => m
  | n + 1, m => (zeroPasses i n m).store (i + n) 0

variable [Add F] [IntCast F] [Double F]

/-- A pass of the loop that copies. -/
def copyPass (src : Int → UInt32) (srcCount : Nat) (speed : F) (i : Nat)
    (m : Copy F) : Copy F :=
  let pos := wrapPos srcCount (Double.toInt m.fpos)
  { m.store i (src pos) with
    fpos := m.fpos + speed
    reads := m.reads ++ [pos] }

/-- The first passes of this loop. -/
def copyPasses (src : Int → UInt32) (srcCount : Nat) (speed : F) :
    Nat → Copy F → Copy F
  | 0, m => m
  | n + 1, m => copyPass src srcCount speed n (copyPasses src srcCount speed n m)

/-- `write_wave`. -/
def writeWave (dest : Nat → UInt32) (destCount : Nat) (src : Int → UInt32)
    (srcCount : Nat) (srcPos speed : F) : Copy F :=
  if srcCount = 0 then
    (Copy.mk dest srcPos [] []).memset (sizeT (int32 (destCount * 2)))
  else
    let count := min destCount srcCount
    let fpos := Double.fmod srcPos ((srcCount : Int) : F)
    zeroPasses count (destCount - count)
      (copyPasses src srcCount speed count ⟨dest, fpos, [], []⟩)

end Model

/-! ## What it is to do -/

/-- Nothing outside of the source is read, every element of the buffer is
written, and it holds elements of the source as far as there are any, and
zeros behind them. -/
structure FillsDest {F : Type} (destCount : Nat) (src : Int → UInt32)
    (srcCount : Nat) (m : Copy F) : Prop where
  inside : ∀ p ∈ m.reads, 0 ≤ p ∧ p < srcCount
  written : ∀ i < destCount, ∀ b < 4, 4 * i + b ∈ m.writes
  copied : ∀ i < min destCount srcCount,
    ∃ p : Int, 0 ≤ p ∧ p < srcCount ∧ m.dest i = src p
  cleared : ∀ i, min destCount srcCount ≤ i → i < destCount → m.dest i = 0

/-- `fpos` in pass `i`. -/
def position (srcCount : Nat) (srcPos speed : ℚ) (i : Nat) : ℚ :=
  Double.fmod srcPos ((srcCount : Int) : ℚ) + i * speed

/-- The truncated positions that are not brought back to the source: its end,
and in front of it the multiples of its length and the smallest `int`. -/
def Misplaced (srcCount pos : Int) : Prop :=
  pos = srcCount ∨ (pos < 0 ∧ (srcCount ∣ pos ∨ pos = -2147483648))

/-- The values an `int` has. -/
def InInt (n : Int) : Prop := -2147483648 ≤ n ∧ n < 2147483648

/-! ## The index -/

section Index

variable {n p : Int}

theorem int32_of_inInt (h : InInt n) : int32 n = n := by
  obtain ⟨hlow, hhigh⟩ := h
  apply Int.bmod_eq_of_le
  · omega
  · omega

/-- Of these positions only the smallest one has no opposite. -/
theorem int32_neg (hp : InInt p) (hmin : p ≠ -2147483648) :
    int32 (-p) = -p := by
  obtain ⟨hlow, hhigh⟩ := hp
  exact int32_of_inInt ⟨by omega, by omega⟩

/-- Anywhere else the index is that of a ring. -/
theorem wrapPos_eq_emod (hn : 0 < n) (hn' : InInt n) (hp : InInt p)
    (h : ¬ Misplaced n p) : wrapPos n p = p % n := by
  obtain ⟨hend, hfront⟩ := not_or.1 h
  rw [wrapPos]
  split
  · exact Int.tmod_eq_emod_of_nonneg (by omega)
  · split
    · rename_i hneg
      obtain ⟨hdvd, hmin⟩ := not_or.1 (not_and.1 hfront hneg)
      have h0 := Int.emod_nonneg p hn.ne'
      have hlt := Int.emod_lt_of_pos p hn
      have hring : n - (int32 (-p)).tmod n = p % n := by
        rw [int32_neg hp hmin, Int.tmod_eq_emod_of_nonneg (by omega),
          Int.neg_emod, if_neg hdvd]
        omega
      rw [hring]
      exact int32_of_inInt ⟨by omega, by have := hn'.2; omega⟩
    · exact (Int.emod_eq_of_lt (by omega) (by omega)).symm

/-- There it is outside of the source. -/
theorem wrapPos_of_misplaced (hn : 0 < n) (hn' : InInt n) (hp : InInt p)
    (h : Misplaced n p) : ¬ (0 ≤ wrapPos n p ∧ wrapPos n p < n) := by
  obtain ⟨-, hhigh⟩ := hn'
  rw [wrapPos]
  rcases h with hend | ⟨hneg, hfront⟩
  · rw [if_neg (by omega), if_neg (by omega)]
    omega
  · rw [if_neg (by omega), if_pos hneg]
    by_cases hmin : p = -2147483648
    · -- the sum may wrap to a negative number
      have hrest := Int.emod_nonneg 2147483648 hn.ne'
      have hlt := Int.emod_lt_of_pos 2147483648 hn
      have hsame : int32 (-p) = -2147483648 := by
        rw [hmin]
        decide
      have hpos : (0 : Int) ≤ 2147483648 := by decide
      rw [hsame, Int.neg_tmod, Int.tmod_eq_emod_of_nonneg hpos, int32,
        Int.bmod_def]
      split <;> omega
    · have hdvd := hfront.resolve_right hmin
      rw [int32_neg hp hmin, Int.tmod_eq_emod_of_nonneg (by omega),
        Int.emod_eq_zero_of_dvd (Int.dvd_neg.2 hdvd), Int.sub_zero,
        int32_of_inInt ⟨by omega, hhigh⟩]
      omega

theorem wrapPos_inside_iff (hn : 0 < n) (hn' : InInt n) (hp : InInt p) :
    0 ≤ wrapPos n p ∧ wrapPos n p < n ↔ ¬ Misplaced n p := by
  constructor
  · exact fun hin h => wrapPos_of_misplaced hn hn' hp h hin
  · intro h
    rw [wrapPos_eq_emod hn hn' hp h]
    exact ⟨Int.emod_nonneg p hn.ne', Int.emod_lt_of_pos p hn⟩

end Index

/-! ## The loops -/

section Loops

variable {F : Type}

theorem Copy.store_dest (m : Copy F) (i : Nat) (w : UInt32) (j : Nat) :
    (m.store i w).dest j = if j = i then w else m.dest j :=
  Function.update_apply m.dest i w j

theorem Copy.memset_writes (m : Copy F) (len : Nat) :
    (m.memset len).writes = m.writes ++ List.range len := rfl

theorem Copy.mem_store_writes {m : Copy F} {i : Nat} {w : UInt32} {p : Nat} :
    p ∈ (m.store i w).writes ↔ p ∈ m.writes ∨ (4 * i ≤ p ∧ p < 4 * i + 4) := by
  simp only [Copy.store, List.mem_append, List.mem_cons, List.not_mem_nil,
    or_false]
  apply or_congr_right
  omega

theorem zeroPasses_reads (i n : Nat) (m : Copy F) :
    (zeroPasses i n m).reads = m.reads := by
  induction n with
  | zero => rfl
  | succ n ih => exact ih

theorem zeroPasses_dest (i n : Nat) (m : Copy F) (j : Nat) :
    (zeroPasses i n m).dest j =
      if i ≤ j ∧ j < i + n then 0 else m.dest j := by
  induction n with
  | zero => rw [zeroPasses, if_neg (by omega)]
  | succ n ih =>
      rw [zeroPasses, Copy.store_dest, ih]
      by_cases hlast : j = i + n
      · rw [if_pos hlast, if_pos (by omega)]
      · rw [if_neg hlast]
        exact if_congr (by omega) rfl rfl

theorem mem_zeroPasses_writes {i n : Nat} {m : Copy F} {p : Nat} :
    p ∈ (zeroPasses i n m).writes ↔
      p ∈ m.writes ∨ (4 * i ≤ p ∧ p < 4 * (i + n)) := by
  induction n with
  | zero =>
      rw [zeroPasses]
      exact (or_iff_left (by omega)).symm
  | succ n ih =>
      rw [zeroPasses, Copy.mem_store_writes, ih, or_assoc]
      apply or_congr_right
      omega

end Loops

section Copying

variable {src : Int → UInt32} {srcCount : Nat} {speed : ℚ} {n : Nat}
  {m : Copy ℚ}

theorem copyPasses_fpos :
    (copyPasses src srcCount speed n m).fpos = m.fpos + n * speed := by
  induction n with
  | zero => simp [copyPasses]
  | succ n ih =>
      show (copyPasses src srcCount speed n m).fpos + speed = _
      rw [ih]
      push_cast
      ring

theorem mem_copyPasses_reads {p : Int} :
    p ∈ (copyPasses src srcCount speed n m).reads ↔ p ∈ m.reads ∨
      ∃ i < n, p = wrapPos srcCount (Double.toInt (m.fpos + i * speed)) := by
  induction n with
  | zero => simp [copyPasses]
  | succ n ih =>
      rw [Nat.exists_lt_succ_right, ← or_assoc, ← ih, ← copyPasses_fpos]
      exact List.mem_append.trans (or_congr_right List.mem_singleton)

theorem copyPass_dest (i j : Nat) :
    (copyPass src srcCount speed i m).dest j =
      if j = i then src (wrapPos srcCount (Double.toInt m.fpos))
      else m.dest j :=
  Copy.store_dest _ _ _ _

theorem mem_copyPass_writes {i p : Nat} :
    p ∈ (copyPass src srcCount speed i m).writes ↔
      p ∈ m.writes ∨ (4 * i ≤ p ∧ p < 4 * i + 4) :=
  Copy.mem_store_writes (w := src (wrapPos srcCount (Double.toInt m.fpos)))

/-- Element `j` of the buffer is written in pass `j`. -/
theorem copyPasses_dest (j : Nat) :
    (copyPasses src srcCount speed n m).dest j =
      if j < n then
        src (wrapPos srcCount (Double.toInt (m.fpos + j * speed)))
      else m.dest j := by
  induction n with
  | zero => rfl
  | succ n ih =>
      rw [copyPasses, copyPass_dest, ih, copyPasses_fpos]
      by_cases hlast : j = n
      · rw [if_pos hlast, if_pos (by omega), hlast]
      · rw [if_neg hlast]
        exact if_congr (by omega) rfl rfl

theorem mem_copyPasses_writes {p : Nat} :
    p ∈ (copyPasses src srcCount speed n m).writes ↔
      p ∈ m.writes ∨ p < 4 * n := by
  induction n with
  | zero => simp [copyPasses]
  | succ n ih =>
      rw [copyPasses, mem_copyPass_writes, ih, or_assoc]
      apply or_congr_right
      omega

end Copying

/-! ## The call -/

section Call

variable {dest : Nat → UInt32} {destCount : Nat} {src : Int → UInt32}
  {srcCount : Nat} {srcPos speed : ℚ}

/-- With a source the function is its two loops. -/
theorem writeWave_of_source (h : srcCount ≠ 0) :
    writeWave dest destCount src srcCount srcPos speed =
      zeroPasses (min destCount srcCount)
        (destCount - min destCount srcCount)
        (copyPasses src srcCount speed (min destCount srcCount)
          ⟨dest, Double.fmod srcPos ((srcCount : Int) : ℚ), [], []⟩) :=
  if_neg h

theorem writeWave_reads (h : srcCount ≠ 0) {p : Int} :
    p ∈ (writeWave dest destCount src srcCount srcPos speed).reads ↔
      ∃ i < min destCount srcCount,
        p = wrapPos srcCount
          (Double.toInt (position srcCount srcPos speed i)) := by
  rw [writeWave_of_source h, zeroPasses_reads, mem_copyPasses_reads]
  exact or_iff_right List.not_mem_nil

theorem writeWave_dest (h : srcCount ≠ 0) {i : Nat} (hi : i < destCount) :
    (writeWave dest destCount src srcCount srcPos speed).dest i =
      if i < srcCount then
        src (wrapPos srcCount
          (Double.toInt (position srcCount srcPos speed i)))
      else 0 := by
  rw [writeWave_of_source h, zeroPasses_dest, copyPasses_dest]
  by_cases hsrc : i < srcCount
  · rw [if_neg (by omega), if_pos (by omega), if_pos hsrc]
    rfl
  · rw [if_pos (by omega), if_neg hsrc]

theorem writeWave_writes (h : srcCount ≠ 0) {p : Nat} :
    p ∈ (writeWave dest destCount src srcCount srcPos speed).writes ↔
      p < 4 * destCount := by
  rw [writeWave_of_source h, mem_zeroPasses_writes, mem_copyPasses_writes]
  simp only [List.not_mem_nil, false_or]
  omega

/-- Going through `int` makes no difference to a size. -/
theorem sizeT_int32 (n : Int) : sizeT (int32 n) = sizeT n := by
  rw [sizeT, sizeT, int32, Int.bmod_def]
  push_cast
  split <;> omega

/-- Without a source, the bytes `memset` is asked for are half of the
buffer. -/
theorem writeWave_writes_zero {p : Nat}
    (hp : p ∈ (writeWave dest destCount src 0 srcPos speed).writes) :
    p < 2 * destCount := by
  have hlen : sizeT (int32 (destCount * 2)) ≤ 2 * destCount := by
    rw [sizeT_int32, sizeT]
    omega
  rw [writeWave, if_pos rfl, Copy.memset_writes, List.nil_append,
    List.mem_range] at hp
  omega

/-- Without a source nothing is read, and only a buffer of no elements is
filled. -/
theorem fillsDest_zero_iff :
    FillsDest destCount src 0 (writeWave dest destCount src 0 srcPos speed) ↔
      destCount = 0 := by
  constructor
  · intro h
    by_contra hdest
    -- the last byte of the buffer is not written
    have hlast := writeWave_writes_zero
      (h.written (destCount - 1) (by omega) 3 (by decide))
    omega
  · rintro rfl
    constructor
    case inside => exact fun p hp => absurd hp List.not_mem_nil
    case written => exact fun i hi => absurd hi (Nat.not_lt_zero i)
    case copied => exact fun i hi => absurd hi (Nat.not_lt_zero i)
    case cleared => exact fun i _ hi => absurd hi (Nat.not_lt_zero i)

/-- With a source everything depends on the indices that are read. -/
theorem fillsDest_source_iff (h : srcCount ≠ 0) :
    FillsDest destCount src srcCount
        (writeWave dest destCount src srcCount srcPos speed) ↔
      ∀ i < min destCount srcCount,
        0 ≤ wrapPos srcCount (Double.toInt (position srcCount srcPos speed i)) ∧
        wrapPos srcCount (Double.toInt (position srcCount srcPos speed i)) <
          srcCount := by
  constructor
  · intro hfills i hi
    exact hfills.inside _ ((writeWave_reads h).2 ⟨i, hi, rfl⟩)
  · intro hinside
    constructor
    case inside =>
      intro p hp
      obtain ⟨i, hi, rfl⟩ := (writeWave_reads h).1 hp
      exact hinside i hi
    case written =>
      intro i hi b hb
      exact (writeWave_writes h).2 (by omega)
    case copied =>
      intro i hi
      obtain ⟨hlow, hhigh⟩ := hinside i hi
      refine ⟨_, hlow, hhigh, ?_⟩
      rw [writeWave_dest h (by omega), if_pos (by omega)]
    case cleared =>
      intro i hmin hi
      rw [writeWave_dest h hi, if_neg (by omega)]

end Call

/-- `write_wave` stays inside of its source and fills its buffer exactly if
there is a source, or no buffer either, and no position is one of those that
are not brought back. -/
theorem fillsDest_iff (dest : Nat → UInt32) (destCount : Nat)
    (src : Int → UInt32) (srcCount : Nat) (srcPos speed : ℚ)
    (hcount : srcCount < 2147483648)
    (hpos : ∀ i < min destCount srcCount,
      InInt (Double.toInt (position srcCount srcPos speed i))) :
    FillsDest destCount src srcCount
        (writeWave dest destCount src srcCount srcPos speed) ↔
      (srcCount = 0 → destCount = 0) ∧
        ∀ i < min destCount srcCount, ¬ Misplaced srcCount
          (Double.toInt (position srcCount srcPos speed i)) := by
  rcases Nat.eq_zero_or_pos srcCount with hsrc | hsrc
  · rw [hsrc, fillsDest_zero_iff, Nat.min_zero]
    constructor
    · exact fun hdest => ⟨fun _ => hdest, fun i hi => absurd hi (Nat.not_lt_zero i)⟩
    · exact fun h => h.1 rfl
  · have hn : (0 : Int) < srcCount := by omega
    have hn' : InInt srcCount := ⟨by omega, by omega⟩
    rw [fillsDest_source_iff hsrc.ne',
      forall₂_congr (fun i hi => wrapPos_inside_iff hn hn' (hpos i hi))]
    exact (and_iff_right (fun hzero => absurd hzero hsrc.ne')).symm

/-- `fillsDest_iff` at half speed, with one element more than there are. -/
theorem fillsDest_halfSpeed :
    FillsDest 3 (fun _ => 5) 2
      (writeWave (fun _ => 7) 3 (fun _ => 5) 2 ((1 : ℚ) / 2) (1 / 2)) :=
  (fillsDest_iff (fun _ => 7) 3 (fun _ => 5) 2 ((1 : ℚ) / 2) (1 / 2)
    (by decide) (by unfold InInt; decide +kernel)).2
      ⟨by decide, by unfold Misplaced; decide +kernel⟩

/-- From the second of two elements on, the next one is read behind them. -/
theorem not_fillsDest :
    ¬ ∀ (dest : Nat → UInt32) (destCount : Nat) (src : Int → UInt32)
      (srcCount : Nat) (srcPos speed : ℚ), srcCount < 2147483648 →
      (∀ i < min destCount srcCount,
        InInt (Double.toInt (position srcCount srcPos speed i))) →
      FillsDest destCount src srcCount
        (writeWave dest destCount src srcCount srcPos speed) := by
  intro h
  have hfills := h (fun _ => 7) 2 (fun _ => 5) 2 1 1 (by decide)
    (by unfold InInt; decide +kernel)
  have hread : (2 : Int) ∈
      (writeWave (fun _ => 7) 2 (fun _ => 5) 2 (1 : ℚ) 1).reads :=
    (writeWave_reads (by decide)).2 ⟨1, by decide, by decide +kernel⟩
  exact absurd (hfills.inside 2 hread).2 (by decide)

end Bucktoot.Ports.WriteWave
