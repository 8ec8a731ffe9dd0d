import Dxian.Base.Logging.LogStream

/-!
# Canonical numerals

What `convert` and `convertHex` write, told without them: a sign for negative numbers, then
the digits, of which the first is zero only if it is the only one.

## Main results

- `isDecimal_iff`, `isHexadecimal_iff` — every number has one such numeral
- `digitLoop_ends` — the loops end, after one round for each digit
- `integers_exact` — `convert` and `convertHex`, on all the types that a `LogStream` takes
-/

namespace Dxian

open Overwrite

/-- The character of a digit. -/
def digitChar (d : ℕ) : UInt8 := if d < 10 then UInt8.ofNat (0x30 + d) else UInt8.ofNat (0x37 + d)

/-- The canonical decimal numeral of `v`. -/
def IsDecimal (text : List UInt8) (v : ℤ) : Prop := ∃ ds, Numeral.Canonical 10 ds v.natAbs ∧
  text = (if v < 0 then [0x2d] else []) ++ ds.map digitChar

/-- The canonical hexadecimal numeral of `n`, in upper case. -/
def IsHexadecimal (text : List UInt8) (n : ℕ) : Prop := ∃ ds, Numeral.Canonical 16 ds n ∧
  text = ds.map digitChar

/-- The tables of `convert` and `convertHex` hold these characters. -/
theorem decimalChar_eq {d : ℕ} (h : d < 10) : decimalChar d = digitChar d := by
  rw [digitChar, if_pos h]
  rfl

theorem hexChar_eq {d : ℕ} (h : d < 16) : hexChar d = digitChar d := by
  have htable : ∀ k : Fin 16, hexChar k = digitChar k := by decide
  exact htable ⟨d, h⟩

/-- The digits of a number as characters. -/
theorem map_digits {b n : ℕ} (hb : 1 < b) {char : ℕ → UInt8}
    (hchar : ∀ d < b, char d = digitChar d) :
    ((Numeral.digits b n).map char).reverse = (Numeral.digits b n).reverse.map digitChar := by
  rw [← List.map_reverse]
  apply List.map_congr_left
  intro d hd
  exact hchar d ((Numeral.canonical_digits hb n).digit d hd)

/-- A sign `s` and a canonical numeral are the sign and the digits. -/
theorem exists_canonical_iff {b n : ℕ} (hb : 1 < b) {s text : List UInt8} :
    (∃ ds, Numeral.Canonical b ds n ∧ text = s ++ ds.map digitChar) ↔
      text = s ++ (Numeral.digits b n).reverse.map digitChar := by
  constructor
  · rintro ⟨ds, hds, htext⟩
    rw [htext, (Numeral.canonical_iff hb).mp hds]
  · intro htext
    exact ⟨_, Numeral.canonical_digits hb n, htext⟩

theorem isDecimal_iff {text : List UInt8} {v : ℤ} : IsDecimal text v ↔ text = decimal v := by
  rw [decimal, map_digits (by decide) fun d hd => decimalChar_eq hd]
  exact exists_canonical_iff (by decide)

theorem isHexadecimal_iff {text : List UInt8} {n : ℕ} :
    IsHexadecimal text n ↔ text = hexadecimal n := by
  rw [hexadecimal, map_digits (by decide) fun d hd => hexChar_eq hd]
  exact exists_canonical_iff (s := []) (by decide)

/-! ## The loops end -/

section Loop

variable {data : List UInt8} {p : ℕ}

/-- More fuel than digits changes nothing. -/
theorem digitLoop_ends {b : ℕ} (hb : 1 < b) {digit : ℤ → Except Fault UInt8} {char : ℕ → UInt8}
    {i : ℤ} (hdigit : ∀ j : ℤ, (0 ≤ i → 0 ≤ j) → digit (j.tmod b) = .ok (char (j.natAbs % b)))
    {k : ℕ} (hk : (Numeral.digits b i.natAbs).length ≤ k) (hfits : p + k ≤ data.length)
    {fuel : ℕ} (hfuel : k ≤ fuel) :
    digitLoop b digit fuel data p i = digitLoop b digit (i.natAbs + 1) data p i := by
  rw [digitLoop_eq hb (hk.trans hfuel) hdigit (by omega),
    digitLoop_eq hb (Numeral.length_digits_le_succ hb _) hdigit (by omega)]

theorem length_digits_int {v : ℤ} (hlow : -2 ^ 63 ≤ v) (hhigh : v < 2 ^ 64) :
    (Numeral.digits 10 v.natAbs).length ≤ 20 :=
  Numeral.length_digits_le (by decide) (by decide) (by omega)

theorem decimal_loop_ends {v : ℤ} (hlow : -2 ^ 63 ≤ v) (hhigh : v < 2 ^ 64)
    (hfits : p + 20 ≤ data.length) {fuel : ℕ} (hfuel : 20 ≤ fuel) :
    digitLoop 10 zero fuel data p v = digitLoop 10 zero (v.natAbs + 1) data p v :=
  digitLoop_ends (b := 10) (by decide) (fun j _ => zero_tmod j) (length_digits_int hlow hhigh)
    hfits hfuel

theorem hexadecimal_loop_ends {n : ℕ} (h : n < 2 ^ 64) (hfits : p + 16 ≤ data.length) {fuel : ℕ}
    (hfuel : 16 ≤ fuel) :
    digitLoop 16 (fun lsd => index digitsHex lsd.toNat) fuel data p n =
      digitLoop 16 (fun lsd => index digitsHex lsd.toNat) (n + 1) data p n :=
  digitLoop_ends (b := 16) (by decide) (fun j hj => digitsHex_tmod (hj (Int.natCast_nonneg n)))
    (Numeral.length_digits_le (by decide) (by decide) h) hfits hfuel

end Loop

/-- **Integers are formatted exactly.** Let 21 bytes be free behind `buf`, 17 for
`convertHex`. The loops end after at most 20 and 16 rounds. For every value of every
integer type of `operator<<`, `convert` writes its canonical decimal numeral and a NUL,
nothing else, and returns the length, which is at most 20. So does `convertHex` for every
`uintptr_t`, with the hexadecimal numeral and at most 16 characters. -/
theorem integers_exact (data : List UInt8) (buf : ℕ) :
    (∀ (type : IntType) (v : ℤ), type.Contains v → buf + 21 ≤ data.length →
      (∀ fuel, 20 ≤ fuel →
        digitLoop 10 zero fuel data buf v = digitLoop 10 zero (v.natAbs + 1) data buf v) ∧
      ∃ text, IsDecimal text v ∧ text.length ≤ 20 ∧
        convert data buf v = .ok (overwrite data buf (text ++ [0]), text.length)) ∧
    ∀ v : UInt64, buf + 17 ≤ data.length →
      (∀ fuel, 16 ≤ fuel →
        digitLoop 16 (fun lsd => index digitsHex lsd.toNat) fuel data buf v.toNat =
          digitLoop 16 (fun lsd => index digitsHex lsd.toNat) (v.toNat + 1) data buf v.toNat) ∧
      ∃ text, IsHexadecimal text v.toNat ∧ text.length ≤ 16 ∧
        convertHex data buf v.toNat = .ok (overwrite data buf (text ++ [0]), text.length) := by
  refine ⟨fun type v hv hfits => ?_, fun v hfits => ?_⟩
  · obtain ⟨hlow, hhigh⟩ := hv.bounds
    have hlength := length_decimal_le hlow hhigh
    exact ⟨fun fuel hfuel => decimal_loop_ends hlow hhigh (by omega) hfuel, decimal v,
      isDecimal_iff.mpr rfl, hlength, convert_eq (by omega)⟩
  · have hlength := length_hexadecimal_le v.toNat_lt
    exact ⟨fun fuel hfuel => hexadecimal_loop_ends v.toNat_lt (by omega) hfuel,
      hexadecimal v.toNat, isHexadecimal_iff.mpr rfl, hlength, convertHex_eq (by omega)⟩

/-- The smallest `long long`, and the largest `uintptr_t`. -/
theorem integers_exact_extremes :
    (∃ text, IsDecimal text (-2 ^ 63) ∧ text.length ≤ 20 ∧
      convert (List.replicate 48 0x7f) 0 (-2 ^ 63) =
        .ok (overwrite (List.replicate 48 0x7f) 0 (text ++ [0]), text.length)) ∧
    ∃ text, IsHexadecimal text (0xFFFFFFFFFFFFFFFF : UInt64).toNat ∧ text.length ≤ 16 ∧
      convertHex (List.replicate 48 0x7f) 0 (0xFFFFFFFFFFFFFFFF : UInt64).toNat =
        .ok (overwrite (List.replicate 48 0x7f) 0 (text ++ [0]), text.length) :=
  ⟨((integers_exact (List.replicate 48 0x7f) 0).1 .longLong (-2 ^ 63) (by decide) (by simp)).2,
    ((integers_exact (List.replicate 48 0x7f) 0).2 0xFFFFFFFFFFFFFFFF (by simp)).2⟩

end Dxian
