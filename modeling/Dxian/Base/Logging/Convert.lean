import Dxian.Base.Logging.FixedBuffer
import Dxian.Lib.Numeral
import Mathlib.Algebra.Order.Group.Int

/-!
# Integers as text

`convert` and `convertHex` write the digits of a number last digit first, then reverse them.
`convert` divides negative numbers as they are; the table of digits has a half for negative
remainders.

## Main results

- `convert_eq`, `convertHex_eq` — the numeral and the NUL that are written
- `length_decimal_le`, `length_hexadecimal_le` — the lengths of the numerals
- `Denotes.unique` — a text denotes one number
-/

namespace Dxian

open Overwrite

/-- The bytes of a text. -/
def bytes (s : String) : List UInt8 := s.toList.map fun c => UInt8.ofNat c.toNat

/-- `digits`, of which `zero` is the element 9. -/
def digits : List UInt8 := bytes "9876543210123456789"

def digitsHex : List UInt8 := bytes "0123456789ABCDEF"

/-- `zero[lsd]`. -/
def zero (lsd : ℤ) : Except Fault UInt8 := index digits (9 + lsd).toNat

/-- The loop of `convert` and `convertHex`; `p` is the next position of the buffer. -/
def digitLoop (base : ℤ) (digit : ℤ → Except Fault UInt8) :
    ℕ → List UInt8 → ℕ → ℤ → Except Fault (List UInt8 × ℕ)
  | 0, data, p, _ => .ok (data, p)
  | fuel + 1, data, p, i => do
    let c ← digit (i.tmod base)
    let data ← store data p c
    -- rounding towards zero: a negative `i` keeps its sign until it is zero
    if i.tdiv base ≠ 0 then digitLoop base digit fuel data (p + 1) (i.tdiv base)
    else return (data, p + 1)

/-- `convert`: the buffer and the number of characters before the NUL. -/
def convert (data : List UInt8) (buf : ℕ) (value : ℤ) : Except Fault (List UInt8 × ℕ) := do
  let (data, p) ← digitLoop 10 zero (value.natAbs + 1) data buf value
  let (data, p) ←
    if value < 0 then do
      let data ← store data p 0x2d
      pure (data, p + 1)
    else pure (data, p)
  let data ← store data p 0
  return (reverseRange data buf p, p - buf)

/-- `convertHex`. -/
def convertHex (data : List UInt8) (buf : ℕ) (value : ℕ) : Except Fault (List UInt8 × ℕ) := do
  let (data, p) ← digitLoop 16 (fun lsd => index digitsHex lsd.toNat) (value + 1) data buf value
  let data ← store data p 0
  return (reverseRange data buf p, p - buf)

/-! ## The loop -/

/-- The loop writes the digits of the absolute value. -/
theorem digitLoop_eq {b : ℕ} (hb : 1 < b) {digit : ℤ → Except Fault UInt8} {char : ℕ → UInt8}
    {fuel : ℕ} {data : List UInt8} {p : ℕ} {i : ℤ}
    (hfuel : (Numeral.digits b i.natAbs).length ≤ fuel)
    (hdigit : ∀ j : ℤ, (0 ≤ i → 0 ≤ j) → digit (j.tmod b) = .ok (char (j.natAbs % b)))
    (hfits : p + (Numeral.digits b i.natAbs).length ≤ data.length) :
    digitLoop b digit fuel data p i =
      .ok (overwrite data p ((Numeral.digits b i.natAbs).map char),
        p + (Numeral.digits b i.natAbs).length) := by
  -- each round writes one digit in front of those of the quotient
  induction fuel generalizing data p i with
  | zero => exact absurd hfuel (Nat.not_le.mpr (Numeral.length_digits_pos ..))
  | succ fuel ih =>
    have hquotient : (i.tdiv b).natAbs = i.natAbs / b := by
      rw [Int.natAbs_tdiv, Int.natAbs_natCast]
      rfl
    rw [digitLoop, hdigit i id]
    by_cases hlast : i.natAbs < b
    · have hzero : i.tdiv b = 0 := by
        rw [← Int.natAbs_eq_zero, hquotient]
        exact Nat.div_eq_of_lt hlast
      rw [Numeral.digits_of_lt hlast] at hfits ⊢
      rw [List.length_singleton] at hfits
      show (store data p _ >>= _) = _
      rw [store_eq (by omega), Nat.mod_eq_of_lt hlast]
      show (if i.tdiv b ≠ 0 then _ else _) = _
      rw [if_neg (not_not_intro hzero)]
      rfl
    · have hpos : 0 < i.natAbs / b := Nat.div_pos (by omega) (by omega)
      have hnonzero : i.tdiv b ≠ 0 := by
        intro hzero
        rw [hzero, Int.natAbs_zero] at hquotient
        omega
      rw [Numeral.digits_of_le hb (by omega)] at hfits hfuel ⊢
      rw [List.length_cons] at hfits hfuel
      show (store data p _ >>= _) = _
      rw [store_eq (by omega)]
      show (if i.tdiv b ≠ 0 then _ else _) = _
      have hlength : (overwrite data p [char (i.natAbs % b)]).length = data.length :=
        length_overwrite (by rw [List.length_singleton]; omega)
      have hdigit' : ∀ j : ℤ, (0 ≤ i.tdiv b → 0 ≤ j) →
          digit (j.tmod b) = .ok (char (j.natAbs % b)) := by
        intro j hj
        exact hdigit j fun hi => hj (Int.tdiv_nonneg hi (Int.natCast_nonneg b))
      rw [if_pos hnonzero, ih (by rw [hquotient]; omega) hdigit'
        (by rw [hquotient, hlength]; omega), hquotient, List.length_cons, List.map_cons]
      have happend : overwrite (overwrite data p [char (i.natAbs % b)]) (p + 1)
          ((Numeral.digits b (i.natAbs / b)).map char) =
          overwrite data p (char (i.natAbs % b) :: (Numeral.digits b (i.natAbs / b)).map char) :=
        overwrite_overwrite (by omega)
      rw [happend, Nat.add_assoc, Nat.add_comm 1]

/-! ## The numerals -/

def decimalChar (d : ℕ) : UInt8 := UInt8.ofNat (48 + d)

def hexChar (d : ℕ) : UInt8 := digitsHex.getD d 0

/-- The decimal numeral of an integer. -/
def decimal (value : ℤ) : List UInt8 :=
  (if value < 0 then [0x2d] else []) ++
    ((Numeral.digits 10 value.natAbs).map decimalChar).reverse

/-- The hexadecimal numeral of a number. -/
def hexadecimal (value : ℕ) : List UInt8 := ((Numeral.digits 16 value).map hexChar).reverse

/-- The mirrored table. -/
theorem zero_eq {lsd : ℤ} (hlow : -10 < lsd) (hhigh : lsd < 10) :
    zero lsd = .ok (decimalChar lsd.natAbs) := by
  have htable : ∀ k : Fin 19, zero (k - 9) = .ok (decimalChar ((k : ℤ) - 9).natAbs) := by decide
  have hlsd := htable ⟨(lsd + 9).toNat, by omega⟩
  rwa [show (((⟨(lsd + 9).toNat, by omega⟩ : Fin 19) : ℕ) : ℤ) - 9 = lsd by
    show ((lsd + 9).toNat : ℤ) - 9 = lsd
    omega] at hlsd

theorem zero_tmod (j : ℤ) : zero (j.tmod 10) = .ok (decimalChar (j.natAbs % 10)) := by
  have hhigh := Int.tmod_lt_of_pos j (b := 10) (by decide)
  have hlow := Int.lt_tmod_of_pos j (b := 10) (by decide)
  rw [zero_eq hlow hhigh, Int.natAbs_tmod]
  rfl

theorem digitsHex_tmod {j : ℤ} (hj : 0 ≤ j) :
    index digitsHex (j.tmod 16).toNat = .ok (hexChar (j.natAbs % 16)) := by
  have htable : ∀ k : Fin 16, index digitsHex k = .ok (hexChar k) := by decide
  obtain ⟨n, rfl⟩ := Int.eq_ofNat_of_zero_le hj
  exact htable ⟨n % 16, Nat.mod_lt _ (by decide)⟩

section Write

variable {data l : List UInt8} {buf : ℕ}

/-- A character behind those that have been written. -/
theorem store_overwrite (hfits : buf + (l.length + 1) ≤ data.length) (c : UInt8) :
    store (overwrite data buf l) (buf + l.length) c = .ok (overwrite data buf (l ++ [c])) := by
  have hlength : (overwrite data buf l).length = data.length := length_overwrite (by omega)
  rw [store_eq (by omega), overwrite_overwrite (by omega)]

/-- The NUL and `std::reverse`. -/
theorem terminate_eq (hfits : buf + (l.length + 1) ≤ data.length) :
    (do
      let data ← store (overwrite data buf l) (buf + l.length) 0
      return (reverseRange data buf (buf + l.length), buf + l.length - buf)) =
    (.ok (overwrite data buf (l.reverse ++ [0]), l.length) : Except Fault (List UInt8 × ℕ)) := by
  rw [store_overwrite hfits]
  show Except.ok _ = _
  rw [reverseRange_overwrite (by omega), Nat.add_sub_cancel_left]

/-- **`convert`** writes the decimal numeral and a NUL. -/
theorem convert_eq {value : ℤ} (hfits : buf + ((decimal value).length + 1) ≤ data.length) :
    convert data buf value =
      .ok (overwrite data buf (decimal value ++ [0]), (decimal value).length) := by
  obtain ⟨ds, hds⟩ : ∃ ds, ds = (Numeral.digits 10 value.natAbs).map decimalChar := ⟨_, rfl⟩
  have hdecimal : decimal value = (if value < 0 then [0x2d] else []) ++ ds.reverse := by
    rw [hds, decimal]
  have hlength : (decimal value).length = (if value < 0 then 1 else 0) + ds.length := by
    rw [hdecimal, List.length_append, List.length_reverse]
    split_ifs <;> rfl
  have hcount : (Numeral.digits 10 value.natAbs).length = ds.length := by
    rw [hds, List.length_map]
  have hloop : digitLoop 10 zero (value.natAbs + 1) data buf value =
      .ok (overwrite data buf ds, buf + ds.length) := by
    rw [← hcount, hds]
    exact digitLoop_eq (b := 10) (by decide) (Numeral.length_digits_le_succ (by decide) _)
      (fun j _ => zero_tmod j) (by omega)
  rw [convert, hloop]
  by_cases hneg : value < 0
  · -- the sign comes last, and first after the reversal
    rw [if_pos hneg] at hlength hdecimal
    show (if value < 0 then _ else _) = _
    rw [if_pos hneg, store_overwrite (by omega)]
    have hsigned : (ds ++ [0x2d]).length = ds.length + 1 := List.length_append
    have hterminate := @terminate_eq data (ds ++ [0x2d]) buf (by omega)
    rw [hsigned, List.reverse_append] at hterminate
    rw [hlength, hdecimal, Nat.add_comm 1]
    exact hterminate
  · rw [if_neg hneg] at hlength hdecimal
    show (if value < 0 then _ else _) = _
    rw [if_neg hneg, hdecimal, List.nil_append, List.length_reverse]
    exact terminate_eq (by omega)

/-- **`convertHex`** writes the hexadecimal numeral and a NUL. -/
theorem convertHex_eq {value : ℕ} (hfits : buf + ((hexadecimal value).length + 1) ≤ data.length) :
    convertHex data buf value =
      .ok (overwrite data buf (hexadecimal value ++ [0]), (hexadecimal value).length) := by
  obtain ⟨ds, hds⟩ : ∃ ds, ds = (Numeral.digits 16 value).map hexChar := ⟨_, rfl⟩
  have hhexadecimal : hexadecimal value = ds.reverse := by rw [hds, hexadecimal]
  have hcount : (Numeral.digits 16 value).length = ds.length := by rw [hds, List.length_map]
  rw [hhexadecimal, List.length_reverse] at hfits ⊢
  have hloop : digitLoop 16 (fun lsd => index digitsHex lsd.toNat) (value + 1) data buf value =
      .ok (overwrite data buf ds, buf + ds.length) := by
    rw [← hcount, hds]
    exact digitLoop_eq (b := 16) (by decide)
      (by rw [Int.natAbs_natCast]; exact Numeral.length_digits_le_succ (by decide) _)
      (fun j hj => digitsHex_tmod (hj (Int.natCast_nonneg value)))
      (by rw [Int.natAbs_natCast]; omega)
  rw [convertHex, hloop]
  exact terminate_eq hfits

end Write

/-- The numerals of 64-bit integers. -/
theorem length_decimal_le {value : ℤ} (hlow : -2 ^ 63 ≤ value) (hhigh : value < 2 ^ 64) :
    (decimal value).length ≤ 20 := by
  rw [decimal, List.length_append, List.length_reverse, List.length_map]
  by_cases hneg : value < 0
  · have hdigits : (Numeral.digits 10 value.natAbs).length ≤ 19 :=
      Numeral.length_digits_le (by decide) (by decide) (by omega)
    rw [if_pos hneg, List.length_singleton]
    omega
  · have hdigits : (Numeral.digits 10 value.natAbs).length ≤ 20 :=
      Numeral.length_digits_le (by decide) (by decide) (by omega)
    rw [if_neg hneg, List.length_nil]
    omega

theorem length_hexadecimal_le {value : ℕ} (h : value < 2 ^ 64) :
    (hexadecimal value).length ≤ 16 := by
  rw [hexadecimal, List.length_reverse, List.length_map]
  exact Numeral.length_digits_le (by decide) (by decide) (by omega)

/-! ## Reading numerals back -/

/-- A sign for negative numbers and digits, which may start with zeros. -/
structure Denotes (text : List UInt8) (n : ℤ) (ds : List ℕ) : Prop where
  digit : ∀ d ∈ ds, d < 10
  nonempty : ds ≠ []
  value : Numeral.value 10 ds = n.natAbs
  text_eq : text = (if n < 0 then [0x2d] else []) ++ ds.map decimalChar

theorem decimalChar_toNat {d : ℕ} (h : d < 10) : (decimalChar d).toNat = 48 + d := by
  have htable : ∀ d : Fin 10, (decimalChar d).toNat = 48 + d := by decide
  exact htable ⟨d, h⟩

namespace Denotes

variable {text : List UInt8} {n m : ℤ} {ds es : List ℕ}

theorem decimal (n : ℤ) :
    Denotes (Dxian.decimal n) n (Numeral.digits 10 n.natAbs).reverse := by
  have hcanonical := Numeral.canonical_digits (b := 10) (by decide) n.natAbs
  exact ⟨hcanonical.digit, hcanonical.nonempty, hcanonical.value, by
    rw [Dxian.decimal, List.map_reverse]⟩

/-- The first character tells the sign. -/
theorem neg_iff (h : Denotes text n ds) : text.head? = some 0x2d ↔ n < 0 := by
  obtain ⟨d, ds', rfl⟩ := List.exists_cons_of_ne_nil h.nonempty
  have hnat := decimalChar_toNat (h.digit d List.mem_cons_self)
  rw [h.text_eq]
  by_cases hneg : n < 0
  · rw [if_pos hneg]
    exact iff_of_true rfl hneg
  · rw [if_neg hneg]
    refine iff_of_false (fun hhead => ?_) hneg
    have hminus : decimalChar d = 0x2d := Option.some.inj hhead
    rw [hminus] at hnat
    have hminus' : (0x2d : UInt8).toNat = 45 := rfl
    omega

theorem digits_unique (hds : ∀ d ∈ ds, d < 10) (hes : ∀ e ∈ es, e < 10)
    (h : ds.map decimalChar = es.map decimalChar) : ds = es := by
  have hread : ∀ ds : List ℕ, (∀ d ∈ ds, d < 10) →
      (ds.map decimalChar).map (fun c => c.toNat - 48) = ds := by
    intro ds hds
    rw [List.map_map]
    refine (List.map_congr_left fun d hd => ?_).trans (List.map_id ds)
    show (decimalChar d).toNat - 48 = d
    rw [decimalChar_toNat (hds d hd), Nat.add_sub_cancel_left]
  rw [← hread ds hds, h, hread es hes]

/-- A text denotes one number. -/
theorem unique (h : Denotes text n ds) (h' : Denotes text m es) : n = m := by
  have hsign : n < 0 ↔ m < 0 := h.neg_iff.symm.trans h'.neg_iff
  have htext := h.text_eq.symm.trans h'.text_eq
  simp only [hsign] at htext
  have hdigits := digits_unique h.digit h'.digit (List.append_cancel_left htext)
  have hvalue : n.natAbs = m.natAbs := by rw [← h.value, ← h'.value, hdigits]
  omega

end Denotes

theorem decimal_injective : Function.Injective decimal := fun m n h =>
  (Denotes.decimal m).unique (h ▸ Denotes.decimal n)

end Dxian
