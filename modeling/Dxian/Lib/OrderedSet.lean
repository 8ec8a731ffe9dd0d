import Mathlib.Data.List.Sort
import Mathlib.Data.Finset.Card

/-!
# Ordered sets

The container `std::set`: a strictly increasing list. `insert` and `erase`
answer as the C++ members do (was the element new, how many were removed), and
`lowerBound` splits a set at the first element that is not below a key.
-/

/-- A finite set kept as a strictly increasing list. -/
structure OrderedSet (α : Type*) [LinearOrder α] where
  toList : List α
  sorted : toList.Pairwise (· < ·)

namespace OrderedSet

variable {α β : Type*} [LinearOrder α] [LinearOrder β]

instance : Membership α (OrderedSet α) := ⟨fun s x => x ∈ s.toList⟩

instance (x : α) (s : OrderedSet α) : Decidable (x ∈ s) :=
  inferInstanceAs (Decidable (x ∈ s.toList))

instance : EmptyCollection (OrderedSet α) := ⟨⟨[], .nil⟩⟩

@[simp] theorem mem_toList {s : OrderedSet α} {x : α} : x ∈ s.toList ↔ x ∈ s := Iff.rfl

@[simp] theorem notMem_empty (x : α) : x ∉ (∅ : OrderedSet α) := List.not_mem_nil

theorem nodup (s : OrderedSet α) : s.toList.Nodup := s.sorted.imp ne_of_lt

/-- The number of elements. -/
def size (s : OrderedSet α) : ℕ := s.toList.length

/-- The least element. -/
def first? (s : OrderedSet α) : Option α := s.toList.head?

theorem pairwise_orderedInsert {x : α} {l : List α} (hl : l.Pairwise (· < ·)) (hx : x ∉ l) :
    (l.orderedInsert (· ≤ ·) x).Pairwise (· < ·) := by
  have hle : (l.orderedInsert (· ≤ ·) x).Pairwise (· ≤ ·) :=
    (hl.imp le_of_lt).orderedInsert x l
  have hnd : (l.orderedInsert (· ≤ ·) x).Nodup :=
    (List.perm_orderedInsert (· ≤ ·) x l).nodup_iff.mpr (List.nodup_cons.mpr ⟨hx, hl.imp ne_of_lt⟩)
  exact (hle.and hnd).imp fun h => lt_of_le_of_ne h.1 h.2

/-- Insert `x`; the flag says whether it was absent. -/
def insert (s : OrderedSet α) (x : α) : OrderedSet α × Bool :=
  if h : x ∈ s then (s, false)
  else (⟨s.toList.orderedInsert (· ≤ ·) x, pairwise_orderedInsert s.sorted h⟩, true)

/-- Erase `x`; the number says how many elements were removed. -/
def erase (s : OrderedSet α) (x : α) : OrderedSet α × ℕ :=
  (⟨s.toList.erase x, s.sorted.sublist List.erase_sublist⟩, if x ∈ s then 1 else 0)

/-- The elements before the lower bound of `k`, and those from it on. -/
def lowerBound (s : OrderedSet α) (k : α) : OrderedSet α × OrderedSet α :=
  (⟨s.toList.takeWhile (· < k), s.sorted.sublist (List.takeWhile_sublist _)⟩,
    ⟨s.toList.dropWhile (· < k), s.sorted.sublist (List.dropWhile_sublist _)⟩)

@[simp] theorem mem_insert {s : OrderedSet α} {x y : α} :
    y ∈ (s.insert x).1 ↔ y = x ∨ y ∈ s := by
  unfold insert
  split
  · next h =>
    refine ⟨.inr, ?_⟩
    rintro (rfl | hy)
    · exact h
    · exact hy
  · exact List.mem_orderedInsert (r := (· ≤ ·))

@[simp] theorem insert_snd {s : OrderedSet α} {x : α} : (s.insert x).2 = true ↔ x ∉ s := by
  unfold insert
  split <;> simp_all

@[simp] theorem mem_erase {s : OrderedSet α} {x y : α} :
    y ∈ (s.erase x).1 ↔ y ≠ x ∧ y ∈ s :=
  s.nodup.mem_erase_iff

theorem erase_snd {s : OrderedSet α} {x : α} (h : x ∈ s) : (s.erase x).2 = 1 := if_pos h

theorem takeWhile_lt_eq_filter {l : List α} (hl : l.Pairwise (· < ·)) (k : α) :
    l.takeWhile (· < k) = l.filter (· < k) := by
  induction l with
  | nil => rfl
  | cons x l ih =>
    obtain ⟨hx, hl⟩ := List.pairwise_cons.mp hl
    by_cases h : x < k
    · simp [h, ih hl]
    · have hnone : l.filter (· < k) = [] :=
        List.filter_eq_nil_iff.mpr fun y hy => by simpa using (not_lt.mp h).trans (hx y hy).le
      simp [h, hnone]

theorem dropWhile_lt_eq_filter {l : List α} (hl : l.Pairwise (· < ·)) (k : α) :
    l.dropWhile (· < k) = l.filter (k ≤ ·) := by
  induction l with
  | nil => rfl
  | cons x l ih =>
    obtain ⟨hx, hl⟩ := List.pairwise_cons.mp hl
    by_cases h : x < k
    · simp [h, ih hl]
    · have hall : l.filter (k ≤ ·) = l :=
        List.filter_eq_self.mpr fun y hy => by simpa using (not_lt.mp h).trans (hx y hy).le
      simp [h, hall, not_lt.mp h]

theorem toList_lowerBound_fst (s : OrderedSet α) (k : α) :
    (s.lowerBound k).1.toList = s.toList.filter (· < k) :=
  takeWhile_lt_eq_filter s.sorted k

theorem toList_lowerBound_snd (s : OrderedSet α) (k : α) :
    (s.lowerBound k).2.toList = s.toList.filter (k ≤ ·) :=
  dropWhile_lt_eq_filter s.sorted k

@[simp] theorem mem_lowerBound_fst {s : OrderedSet α} {k x : α} :
    x ∈ (s.lowerBound k).1 ↔ x ∈ s ∧ x < k := by
  rw [← mem_toList, toList_lowerBound_fst]
  simp

@[simp] theorem mem_lowerBound_snd {s : OrderedSet α} {k x : α} :
    x ∈ (s.lowerBound k).2 ↔ x ∈ s ∧ k ≤ x := by
  rw [← mem_toList, toList_lowerBound_snd]
  simp

theorem first?_eq_none {s : OrderedSet α} : s.first? = none ↔ ∀ x, x ∉ s := by
  simp only [first?, List.head?_eq_none_iff, List.eq_nil_iff_forall_not_mem]
  rfl

/-- The first element is a member and a lower bound of the set. -/
theorem first?_eq_some {s : OrderedSet α} {x : α} (h : s.first? = some x) :
    x ∈ s ∧ ∀ y ∈ s, x ≤ y := by
  obtain ⟨l, hl⟩ := List.head?_eq_some_iff.mp h
  have hs := s.sorted
  rw [hl] at hs
  refine ⟨mem_toList.mp (by simp [hl]), fun y hy => ?_⟩
  rw [← mem_toList, hl] at hy
  rcases List.mem_cons.mp hy with rfl | hy
  · exact le_rfl
  · exact ((List.pairwise_cons.mp hs).1 y hy).le

/-- Two sets with inverse maps between their elements have the same size. -/
theorem size_eq_of_inverse {s : OrderedSet α} {t : OrderedSet β} (f : α → β) (g : β → α)
    (hf : ∀ x ∈ s, f x ∈ t) (hg : ∀ y ∈ t, g y ∈ s)
    (hgf : ∀ x ∈ s, g (f x) = x) (hfg : ∀ y ∈ t, f (g y) = y) : s.size = t.size := by
  have hcard : s.toList.toFinset.card = t.toList.toFinset.card :=
    Finset.card_nbij' f g
      (fun x hx => by simpa using hf x (by simpa using hx))
      (fun y hy => by simpa using hg y (by simpa using hy))
      (fun x hx => hgf x (by simpa using hx))
      (fun y hy => hfg y (by simpa using hy))
  rwa [List.toFinset_card_of_nodup s.nodup, List.toFinset_card_of_nodup t.nodup] at hcard

end OrderedSet
