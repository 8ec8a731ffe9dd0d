import Mathlib.Algebra.Ring.Int.Defs
import Mathlib.Algebra.Ring.Nat
import Mathlib.Data.Int.Notation
import Mathlib.Data.Nat.Notation

/-!
# Big-endian integers

The bytes of an integer in two's complement, the most significant byte first.

## Main results

- `intOf_encode` — the bytes of an integer give it back, if there are enough
-/

namespace BigEndian

/-- The unsigned number of some bytes. -/
def natOf (l : List UInt8) : ℕ := l.foldl (fun n b => 256 * n + b.toNat) 0

/-- The signed number of some bytes. -/
def intOf (l : List UInt8) : ℤ := Int.bmod (natOf l) (256 ^ l.length)

/-- The lowest `k` bytes of an integer. -/
def encode : ℕ → ℤ → List UInt8
  | 0, _ => []
  | k + 1, n => encode k (n / 256) ++ [UInt8.ofNat (n % 256).toNat]

/-- The integer has a signed representation of `k` bytes. -/
def Fits (k : ℕ) (n : ℤ) : Prop := -(256 : ℤ) ^ k ≤ 2 * n ∧ 2 * n < 256 ^ k

instance (k : ℕ) (n : ℤ) : Decidable (Fits k n) := inferInstanceAs (Decidable (_ ∧ _))

theorem natOf_concat (l : List UInt8) (b : UInt8) :
    natOf (l ++ [b]) = 256 * natOf l + b.toNat := by
  rw [natOf, List.foldl_append]
  rfl

@[simp] theorem length_encode (k : ℕ) (n : ℤ) : (encode k n).length = k := by
  induction k generalizing n with
  | zero => rfl
  | succ k ih => rw [encode, List.length_append, ih, List.length_singleton]

/-- The remainder of a number, from its last digit and the remainder of the rest. -/
theorem emod_mul_digit (n : ℤ) {m : ℤ} (hm : 0 < m) :
    n % (m * 256) = 256 * (n / 256 % m) + n % 256 := by
  have hlow := Int.emod_nonneg (n / 256) (Int.ne_of_gt hm)
  have hhigh := Int.emod_lt_of_pos (n / 256) hm
  have hdiv := Int.mul_ediv_add_emod (n / 256) m
  have hunique : 256 * (n / 256 % m) + n % 256 + m * 256 * (n / 256 / m) = n := by
    have hn := Int.mul_ediv_add_emod n 256
    rw [Int.mul_comm m 256, Int.mul_assoc]
    omega
  exact ((Int.ediv_emod_unique (by omega)).mpr ⟨hunique, by omega, by omega⟩).2

theorem natOf_encode (k : ℕ) (n : ℤ) : (natOf (encode k n) : ℤ) = n % 256 ^ k := by
  induction k generalizing n with
  | zero => simp [natOf, encode]
  | succ k ih =>
    have hbyte : ((UInt8.ofNat (n % 256).toNat).toNat : ℤ) = n % 256 := by
      rw [UInt8.toNat_ofNat']
      omega
    rw [encode, natOf_concat, pow_succ, emod_mul_digit n (Int.pow_pos (by decide)), ← ih]
    rw [Int.natCast_add, Int.natCast_mul, hbyte]
    rfl

/-- **The round trip.** -/
theorem intOf_encode {k : ℕ} {n : ℤ} (h : Fits k n) : intOf (encode k n) = n := by
  obtain ⟨hlow, hhigh⟩ := h
  rw [intOf, length_encode, natOf_encode]
  have hcast : ((256 ^ k : ℕ) : ℤ) = 256 ^ k := Int.natCast_pow 256 k
  rw [← hcast, Int.emod_bmod]
  apply Int.bmod_eq_of_le_mul_two
  · rw [hcast]
    omega
  · rw [hcast]
    omega

end BigEndian
