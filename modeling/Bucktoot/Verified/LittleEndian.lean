import Mathlib.Tactic.Common

/-!
# Little-endian words and their signed readings

Sixteen- and thirty-two-bit words laid out low byte first, and the
two's-complement value a signed C type gives to such a word.  `word` reads,
`bytes` writes, and the round-trip lemmas are all a client needs.
-/

namespace Bucktoot.Verified.LittleEndian

/-- The unsigned word held by two bytes, low byte first. -/
def word16 (b0 b1 : UInt8) : Nat := b0.toNat + 256 * b1.toNat

/-- The unsigned word held by four bytes, low byte first. -/
def word32 (b0 b1 b2 b3 : UInt8) : Nat := word16 b0 b1 + 65536 * word16 b2 b3

/-- The two bytes of a word, low byte first. -/
def bytes16 (n : Nat) : List UInt8 := [UInt8.ofNat n, UInt8.ofNat (n / 256)]

/-- The four bytes of a word, low byte first. -/
def bytes32 (n : Nat) : List UInt8 := bytes16 n ++ bytes16 (n / 65536)

/-- The value of a sixteen-bit word read as a signed type. -/
def signed16 (n : Nat) : Int := if n < 32768 then n else (n : Int) - 65536

/-- The value of a thirty-two-bit word read as a signed type. -/
def signed32 (n : Nat) : Int := if n < 2147483648 then n else (n : Int) - 4294967296

@[simp] theorem bytes16_length (n : Nat) : (bytes16 n).length = 2 := rfl

@[simp] theorem bytes32_length (n : Nat) : (bytes32 n).length = 4 := rfl

theorem word16_lt (b0 b1 : UInt8) : word16 b0 b1 < 65536 := by
  have h0 := b0.toNat_lt
  have h1 := b1.toNat_lt
  unfold word16
  omega

/-- A sixteen-bit word survives being written and read back. -/
theorem word16_ofNat {n : Nat} (h : n < 65536) :
    word16 (UInt8.ofNat n) (UInt8.ofNat (n / 256)) = n := by
  simp only [word16, UInt8.toNat_ofNat']
  omega

theorem word16_ofNat_mod (n : Nat) :
    word16 (UInt8.ofNat n) (UInt8.ofNat (n / 256)) = n % 65536 := by
  simp only [word16, UInt8.toNat_ofNat']
  omega

theorem word32_lt (b0 b1 b2 b3 : UInt8) : word32 b0 b1 b2 b3 < 4294967296 := by
  have hlow := word16_lt b0 b1
  have hhigh := word16_lt b2 b3
  unfold word32
  omega

/-- A thirty-two-bit word survives being written and read back. -/
theorem word32_ofNat {n : Nat} (h : n < 4294967296) :
    word32 (UInt8.ofNat n) (UInt8.ofNat (n / 256))
      (UInt8.ofNat (n / 65536)) (UInt8.ofNat (n / 65536 / 256)) = n := by
  simp only [word32, word16_ofNat_mod]
  omega

theorem signed32_of_lt {n : Nat} (h : n < 2147483648) : signed32 n = n :=
  if_pos h

theorem signed32_bounds {n : Nat} (h : n < 4294967296) :
    -2147483648 ≤ signed32 n ∧ signed32 n < 2147483648 := by
  unfold signed32
  split <;> omega

theorem signed16_bounds {n : Nat} (h : n < 65536) :
    -32768 ≤ signed16 n ∧ signed16 n ≤ 32767 := by
  unfold signed16
  split <;> omega

/-- The bit pattern of a signed value in range reads back as that value. -/
theorem signed16_emod {a : Int} (hlo : -32768 ≤ a) (hhi : a ≤ 32767) :
    signed16 (a % 65536).toNat = a := by
  unfold signed16
  split <;> omega

/-- A signed value determines its two bytes. -/
theorem signed16_word16_inj {a0 a1 b0 b1 : UInt8}
    (h : signed16 (word16 a0 a1) = signed16 (word16 b0 b1)) :
    a0 = b0 ∧ a1 = b1 := by
  have ha := word16_lt a0 a1
  have hb := word16_lt b0 b1
  have hword : word16 a0 a1 = word16 b0 b1 := by
    unfold signed16 at h
    split at h <;> split at h <;> omega
  have ha0 := a0.toNat_lt
  have hb0 := b0.toNat_lt
  unfold word16 at hword
  exact ⟨UInt8.toNat_inj.1 (by omega), UInt8.toNat_inj.1 (by omega)⟩

end Bucktoot.Verified.LittleEndian
