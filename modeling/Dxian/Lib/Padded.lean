import Dxian.Lib.Numeral

/-!
# Numerals of a fixed width

Numerals that are filled up on the left to the same width, and the texts that are put
together from them, compare like the numbers.

## Main results

- `append_lt_append_iff` — the order of texts that start with texts of one length
- `padded_lt_iff`, `padded_inj` — the order of numerals of one width
-/

theorem List.append_lt_append_iff {α : Type*} [LT α] {l l' r r' : List α}
    (hlength : l.length = l'.length) : l ++ r < l' ++ r' ↔ l < l' ∨ l = l' ∧ r < r' := by
  induction l generalizing l' with
  | nil =>
    obtain rfl : l' = [] := List.length_eq_zero_iff.mp hlength.symm
    simp
  | cons x l ih =>
    cases l' with
    | nil => cases hlength
    | cons x' l' =>
      have htail := ih (Nat.succ.inj hlength)
      rw [List.cons_append, List.cons_append, List.cons_lt_cons_iff, List.cons_lt_cons_iff, htail,
        List.cons.injEq, and_or_left, or_assoc, and_assoc]

/-- A start that both texts have. -/
theorem List.append_left_lt_iff {α : Type*} [LT α] [Std.Irrefl (α := α) (· < ·)]
    {l r r' : List α} : l ++ r < l ++ r' ↔ r < r' := by
  rw [List.append_lt_append_iff rfl]
  exact ⟨fun h => (h.resolve_left (List.lt_irrefl l)).2, fun h => .inr ⟨rfl, h⟩⟩

namespace Numeral

variable {b : ℕ}

theorem value_cons (b d : ℕ) (ds : List ℕ) :
    value b (d :: ds) = d * b ^ ds.length + value b ds := by
  rw [value_eq_ofDigits, value_eq_ofDigits, List.reverse_cons, Nat.ofDigits_append,
    Nat.ofDigits_singleton, List.length_reverse, Nat.add_comm, Nat.mul_comm]

theorem value_lt_pow {ds : List ℕ} (h : ∀ d ∈ ds, d < b) : value b ds < b ^ ds.length := by
  induction ds with
  | nil => exact Nat.one_pos
  | cons d ds ih =>
    have hrest := ih fun e he => h e (List.mem_cons_of_mem _ he)
    have hd : (d + 1) * b ^ ds.length ≤ b * b ^ ds.length :=
      Nat.mul_le_mul_right _ (h d List.mem_cons_self)
    rw [value_cons, List.length_cons, Nat.pow_succ, Nat.mul_comm _ b]
    rw [Nat.add_mul, Nat.one_mul] at hd
    omega

/-- Zeros in front change nothing. -/
theorem value_replicate_append (b k : ℕ) (ds : List ℕ) :
    value b (List.replicate k 0 ++ ds) = value b ds := by
  induction k with
  | zero => rfl
  | succ k ih =>
    rw [List.replicate_succ, List.cons_append, value_cons, Nat.zero_mul, Nat.zero_add, ih]

/-- Numerals of one length compare like the numbers. -/
theorem lt_of_value_lt {ds es : List ℕ} (hlength : ds.length = es.length)
    (hes : ∀ e ∈ es, e < b) (h : value b ds < value b es) : ds < es := by
  induction ds generalizing es with
  | nil =>
    obtain rfl : es = [] := List.length_eq_zero_iff.mp hlength.symm
    exact absurd h (Nat.lt_irrefl _)
  | cons d ds ih =>
    cases es with
    | nil => cases hlength
    | cons e es =>
      have hrest : ∀ e ∈ es, e < b := fun x hx => hes x (List.mem_cons_of_mem _ hx)
      have hlength' : ds.length = es.length := Nat.succ.inj hlength
      have hbound := value_lt_pow hrest
      rw [value_cons, value_cons, hlength'] at h
      rw [List.cons_lt_cons_iff]
      rcases Nat.lt_trichotomy d e with hlt | rfl | hgt
      · exact .inl hlt
      · exact .inr ⟨rfl, ih hlength' hrest (by omega)⟩
      · have hmul : (e + 1) * b ^ es.length ≤ d * b ^ es.length := Nat.mul_le_mul_right _ hgt
        rw [Nat.add_mul, Nat.one_mul] at hmul
        omega

/-- `n` in `k` characters: `fill`, then the digits. -/
def padded {α : Type*} (fill : α) (char : ℕ → α) (b k n : ℕ) : List α :=
  List.replicate (k - (digits b n).length) fill ++ (digits b n).reverse.map char

section Padded

variable {α : Type*} {fill : α} {char : ℕ → α} {k n m : ℕ}

theorem length_padded (hb : 1 < b) (hk : 0 < k) (hn : n < b ^ k) :
    (padded fill char b k n).length = k := by
  have hle := length_digits_le hb hk hn
  rw [padded, List.length_append, List.length_replicate, List.length_map, List.length_reverse]
  omega

variable [LT α]

/-- Characters in the order of the digits they stand for. -/
structure Characters (b : ℕ) (fill : α) (char : ℕ → α) : Prop where
  mono : ∀ {d e}, d < e → e < b → char d < char e
  fill : ∀ {d}, 0 < d → d < b → fill < char d

theorem Characters.map_lt (h : Characters b fill char) {ds es : List ℕ} (hes : ∀ e ∈ es, e < b)
    (hlt : ds < es) : ds.map char < es.map char := by
  induction ds generalizing es with
  | nil =>
    cases es with
    | nil => exact absurd hlt (List.not_lt_nil _)
    | cons e es => exact List.nil_lt_cons _ _
  | cons d ds ih =>
    cases es with
    | nil => exact absurd hlt (List.not_lt_nil _)
    | cons e es =>
      rw [List.map_cons, List.map_cons, List.cons_lt_cons_iff]
      rcases List.cons_lt_cons_iff.mp hlt with hde | ⟨rfl, hrest⟩
      · exact .inl (h.mono hde (hes e List.mem_cons_self))
      · exact .inr ⟨rfl, ih (fun x hx => hes x (List.mem_cons_of_mem _ hx)) hrest⟩

theorem padded_lt (h : Characters b fill char) (hb : 1 < b) (hk : 0 < k) (hm : m < b ^ k)
    (hlt : n < m) : padded fill char b k n < padded fill char b k m := by
  have hle := length_digits_mono hb hlt.le
  have hmk := length_digits_le hb hk hm
  have hcanonical := canonical_digits hb m
  rcases hle.eq_or_lt with heq | hshort
  · -- as many digits
    have hdigits : (digits b n).reverse < (digits b m).reverse := by
      refine lt_of_value_lt (by simpa using heq) hcanonical.digit ?_
      rwa [(canonical_digits hb n).value, hcanonical.value]
    rw [padded, padded, heq]
    exact List.append_left_lt (h.map_lt hcanonical.digit hdigits)
  · -- `n` is filled up where `m` has its first digit
    have hzero : m ≠ 0 := by omega
    obtain ⟨d, ds, hds⟩ := List.exists_cons_of_ne_nil hcanonical.nonempty
    have hd : d < b := hcanonical.digit d (by rw [hds]; exact List.mem_cons_self)
    have hpos : 0 < d := by
      rw [Nat.pos_iff_ne_zero]
      rintro rfl
      have hsingle := hcanonical.leading (by rw [hds]; rfl)
      have hvalue := hcanonical.value
      rw [hsingle] at hvalue
      exact hzero hvalue.symm
    have hfill : k - (digits b n).length =
        k - (digits b m).length + (((digits b m).length - (digits b n).length - 1) + 1) := by
      omega
    rw [padded, padded, hds, hfill, List.replicate_add, List.replicate_succ, List.append_assoc,
      List.map_cons, List.cons_append]
    exact List.append_left_lt (List.cons_lt_cons_iff.mpr (.inl (h.fill hpos hd)))

/-- Numerals of one width compare like the numbers. -/
theorem padded_lt_iff [Std.Irrefl (α := α) (· < ·)] [Std.Asymm (α := α) (· < ·)]
    (h : Characters b fill char) (hb : 1 < b) (hk : 0 < k) (hn : n < b ^ k) (hm : m < b ^ k) :
    padded fill char b k n < padded fill char b k m ↔ n < m := by
  refine ⟨fun hlt => ?_, padded_lt h hb hk hm⟩
  rcases Nat.lt_trichotomy n m with hnm | rfl | hmn
  · exact hnm
  · exact absurd hlt (List.lt_irrefl _)
  · exact absurd hlt (List.lt_asymm (padded_lt h hb hk hn hmn))

theorem padded_inj [Std.Irrefl (α := α) (· < ·)] (h : Characters b fill char) (hb : 1 < b)
    (hk : 0 < k) (hn : n < b ^ k) (hm : m < b ^ k) :
    padded fill char b k n = padded fill char b k m ↔ n = m := by
  refine ⟨fun heq => ?_, fun heq => by rw [heq]⟩
  rcases Nat.lt_trichotomy n m with hnm | rfl | hmn
  · exact absurd (heq ▸ padded_lt h hb hk hm hnm) (List.lt_irrefl _)
  · rfl
  · exact absurd (heq ▸ padded_lt h hb hk hn hmn) (List.lt_irrefl _)

end Padded

end Numeral
