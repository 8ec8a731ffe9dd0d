import Mathlib.Algebra.Ring.Nat
import Mathlib.Tactic.TypeStar
import Mathlib.Data.Int.Notation
import Mathlib.Data.Nat.Notation

/-!
# Expressions of type `int`

Arithmetic of a 32-bit `int` whose overflow is undefined behaviour: an expression
has a value, or some intermediate result has left the range. Division rounds towards
zero. The results of type `int64_t` are checked one at a time.

## Main results

- `CInt.ofInt_add`, `CInt.ofInt_sub`, `CInt.ofInt_mul`, `CInt.ofInt_div` — the
  value of an expression whose operands are in range
- `CInt.lift₂_eq_val` — the operands of an expression that has a value
-/

/-- The value of an expression, or an overflow on the way to it. -/
inductive CInt
  | val (n : ℤ)
  | overflow
deriving DecidableEq

namespace CInt

/-- The values of an `int`. -/
@[reducible] def InRange (n : ℤ) : Prop := -2147483648 ≤ n ∧ n ≤ 2147483647

/-- A result, if it is in range. -/
def ofInt (n : ℤ) : CInt := if InRange n then val n else overflow

/-- An operation on two values. -/
def lift₂ (f : ℤ → ℤ → ℤ) : CInt → CInt → CInt
  | val x, val y => ofInt (f x y)
  | _, _ => overflow

instance : Coe ℤ CInt := ⟨ofInt⟩

instance (n : ℕ) : OfNat CInt n := ⟨ofInt n⟩

instance : Add CInt := ⟨lift₂ (· + ·)⟩

instance : Sub CInt := ⟨lift₂ (· - ·)⟩

instance : Mul CInt := ⟨lift₂ (· * ·)⟩

instance : Div CInt := ⟨lift₂ Int.tdiv⟩

/-- The value, or the error `e`. -/
def get {ε : Type*} (e : ε) : CInt → Except ε ℤ
  | val n => .ok n
  | overflow => .error e

/-- The conversion of a wider integer to `int`. -/
def cast (n : ℤ) : ℤ := n.bmod (2 ^ 32)

variable {x y : ℤ}

theorem ofNat_eq (n : ℕ) : (OfNat.ofNat n : CInt) = ofInt (OfNat.ofNat n) := rfl

theorem get_ofInt {ε : Type*} (e : ε) (h : InRange x) : (ofInt x).get e = .ok x := by
  rw [ofInt, if_pos h, get]

theorem cast_of_inRange (h : InRange x) : cast x = x := by
  apply Int.bmod_eq_of_le <;> omega

theorem lift₂_ofInt {f : ℤ → ℤ → ℤ} (hx : InRange x) (hy : InRange y) :
    lift₂ f (ofInt x) (ofInt y) = ofInt (f x y) := by
  rw [ofInt, ofInt, if_pos hx, if_pos hy, lift₂]

theorem ofInt_add (hx : InRange x) (hy : InRange y) : ofInt x + ofInt y = ofInt (x + y) :=
  lift₂_ofInt hx hy

theorem ofInt_sub (hx : InRange x) (hy : InRange y) : ofInt x - ofInt y = ofInt (x - y) :=
  lift₂_ofInt hx hy

theorem ofInt_mul (hx : InRange x) (hy : InRange y) : ofInt x * ofInt y = ofInt (x * y) :=
  lift₂_ofInt hx hy

/-- A product that is out of range. -/
theorem ofInt_mul_overflow (hx : InRange x) (h : ¬ InRange (x * y)) :
    ofInt x * ofInt y = overflow := by
  by_cases hy : InRange y
  · rw [ofInt_mul hx hy, ofInt, if_neg h]
  · rw [ofInt, if_pos hx, ofInt, if_neg hy]
    rfl

/-- Rounding towards zero is rounding down where nothing is negative. -/
theorem ofInt_div (hx : InRange x) (hy : InRange y) (hpos : 0 ≤ x) :
    ofInt x / ofInt y = ofInt (x / y) := by
  rw [← Int.tdiv_eq_ediv_of_nonneg hpos]
  exact lift₂_ofInt hx hy

/-! ### Expressions that have a value -/

variable {u v : CInt} {n : ℤ}

theorem ofInt_eq_val {m : ℤ} (h : ofInt m = val n) : m = n ∧ InRange m := by
  unfold ofInt at h
  split at h
  · next hrange =>
    cases h
    exact ⟨rfl, hrange⟩
  · cases h

/-- The operands of an expression that has a value. -/
theorem lift₂_eq_val {f : ℤ → ℤ → ℤ} (h : lift₂ f u v = val n) :
    ∃ a b, u = val a ∧ v = val b ∧ f a b = n ∧ InRange (f a b) := by
  cases u with
  | overflow => cases h
  | val a =>
    cases v with
    | overflow => cases h
    | val b => exact ⟨a, b, rfl, rfl, ofInt_eq_val h⟩

theorem add_eq_val (h : u + v = val n) :
    ∃ a b, u = val a ∧ v = val b ∧ a + b = n ∧ InRange (a + b) := lift₂_eq_val h

theorem sub_eq_val (h : u - v = val n) :
    ∃ a b, u = val a ∧ v = val b ∧ a - b = n ∧ InRange (a - b) := lift₂_eq_val h

theorem mul_eq_val (h : u * v = val n) :
    ∃ a b, u = val a ∧ v = val b ∧ a * b = n ∧ InRange (a * b) := lift₂_eq_val h

theorem div_eq_val (h : u / v = val n) :
    ∃ a b, u = val a ∧ v = val b ∧ a.tdiv b = n ∧ InRange (a.tdiv b) := lift₂_eq_val h

theorem literal_eq_val {k : ℕ} (h : (OfNat.ofNat k : CInt) = val n) : (OfNat.ofNat k : ℤ) = n :=
  (ofInt_eq_val h).1

/-- The quotient of a linear expression. -/
theorem affine_div_eq_val {k l d : ℤ} (h : (ofInt k * u + ofInt l) / ofInt d = val n) :
    ∃ a, u = val a ∧ (k * a + l).tdiv d = n ∧ InRange (k * a + l) := by
  obtain ⟨s, d', hs, hd, hn, -⟩ := div_eq_val h
  obtain ⟨p, l', hp, hl, hsum, hrange⟩ := add_eq_val hs
  obtain ⟨k', a, hk, ha, hproduct, -⟩ := mul_eq_val hp
  obtain rfl := (ofInt_eq_val hd).1
  obtain rfl := (ofInt_eq_val hl).1
  obtain rfl := (ofInt_eq_val hk).1
  rw [← hproduct] at hsum hrange
  rw [← hsum] at hn
  exact ⟨a, ha, hn, hrange⟩

theorem sub_div_eq_val {l : ℤ} (h : u - v / ofInt l = val n) :
    ∃ a b, u = val a ∧ v = val b ∧ a - b.tdiv l = n := by
  obtain ⟨a, q, ha, hq, hn, -⟩ := sub_eq_val h
  obtain ⟨b, l', hb, hl, hdiv, -⟩ := div_eq_val hq
  obtain rfl := (ofInt_eq_val hl).1
  rw [← hdiv] at hn
  exact ⟨a, b, ha, hb, hn⟩

theorem get_eq_ok {ε : Type*} {e : ε} (h : u.get e = .ok n) : u = val n := by
  cases u with
  | overflow => cases h
  | val a => cases h; rfl

/-- Division towards zero. -/
theorem tdiv_cases {k : ℤ} (hk : 0 < k) (n : ℤ) :
    0 ≤ n ∧ k * n.tdiv k ≤ n ∧ n < k * n.tdiv k + k ∨
      n < 0 ∧ n ≤ k * n.tdiv k ∧ k * n.tdiv k < n + k := by
  have hsum := Int.tmod_add_mul_tdiv n k
  have hlt := Int.tmod_lt_of_pos n hk
  have hgt := Int.lt_tmod_of_pos n hk
  by_cases hpos : 0 ≤ n
  · have hmod := Int.tmod_nonneg k hpos
    omega
  · have hmod := Int.tmod_nonneg k (show 0 ≤ -n by omega)
    rw [Int.neg_tmod] at hmod
    omega

/-! ### Results of type `int64_t` -/

/-- The values of an `int64_t`. -/
@[reducible] def InRange64 (n : ℤ) : Prop := -9223372036854775808 ≤ n ∧ n ≤ 9223372036854775807

/-- A result of type `int64_t`, or the error `e`. -/
def get64 {ε : Type*} (e : ε) (n : ℤ) : Except ε ℤ := if InRange64 n then .ok n else .error e

theorem get64_eq {ε : Type*} (e : ε) (h : InRange64 x) : get64 e x = .ok x := if_pos h

theorem get64_overflow {ε : Type*} (e : ε) (h : ¬ InRange64 x) : get64 e x = .error e := if_neg h

end CInt
