import Dxian.Base.Logging.Format
import Dxian.Base.Logging.LogTime
import Dxian.Lib.CInt
import Dxian.Lib.Transition

/-!
# The names of threads

Every constructor of a `Thread` takes a number from `numCreated_`, an `AtomicInt32`; without a
name of its own the `Thread` is called after it. Threads construct `Thread`s at the same time:
the `fetch_and_add` is atomic, and the one that `addAndGet` adds to its answer is added later.

## Main results

- `Numbered.step` — the numbers that have been taken
- `default_names_distinct` — no two default names are the same
-/

namespace Dxian

open Transition

/-- `AtomicIntegerT<int32_t>::getAndAdd`: the value before it, and the one after it, which wraps
around. -/
def AtomicInt32.getAndAdd (value_ x : ℤ) : ℤ × ℤ := (value_, CInt.cast (value_ + x))

/-- What `addAndGet` makes of the answer of `getAndAdd`: an addition of `int`s. -/
def AtomicInt32.addAndGet (answer x : ℤ) : Except Fault ℤ :=
  ((answer : CInt) + (x : CInt)).get .overflow

/-- A `Thread` that has been constructed: its number, the argument of the constructor and the
name. -/
structure NamedThread where
  num : ℤ
  n : List UInt8
  name_ : List UInt8

/-- `numCreated_` and the constructors of `Thread`, by the threads that run them: the answer of
`getAndAdd` and the argument. -/
structure ThreadNames (T : Type) where
  numCreated_ : ℤ
  constructing : T → Option (ℤ × List UInt8)
  threads : List NamedThread

namespace ThreadNames

/-- `"Thread%d"`, in a buffer of 32 characters. -/
def defaultName (num : ℤ) : List UInt8 := snprintf 32 (bytes "Thread" ++ decimal num)

inductive Action (T : Type)
  | increment (t : T) (n : List UInt8)
  | setDefaultName (t : T)

variable {T : Type} [DecidableEq T]

inductive Step (s : ThreadNames T) : Action T → Except Fault (ThreadNames T) → Prop
  | increment {t n} (h : s.constructing t = none) : Step s (.increment t n) (.ok
      { s with
        numCreated_ := (AtomicInt32.getAndAdd s.numCreated_ 1).2
        constructing := Function.update s.constructing t
          (some ((AtomicInt32.getAndAdd s.numCreated_ 1).1, n)) })
  | setDefaultName {t answer n r} (h : s.constructing t = some (answer, n))
      (hr : (AtomicInt32.addAndGet answer 1).map (fun num => { s with
        constructing := Function.update s.constructing t none
        threads := ⟨num, n, if n.isEmpty then defaultName num else n⟩ :: s.threads }) = r) :
      Step s (.setDefaultName t) r

/-- Before the first `Thread` is constructed. -/
def machine (T : Type) [DecidableEq T] : System (ThreadNames T) (Action T) Fault where
  init s := s.numCreated_ = 0 ∧ (∀ t, s.constructing t = none) ∧ s.threads = []
  step := Step

def Action.isIncrement : Action T → Bool
  | increment .. => true
  | setDefaultName _ => false

/-! ## The numbers -/

variable {s s' : ThreadNames T} {k : ℕ} {a : Action T}

/-- After `k` calls of `getAndAdd`, fewer than there are numbers, each of the answers belongs to
one `Thread`. -/
structure Numbered (k : ℕ) (s : ThreadNames T) : Prop where
  numCreated_ : k < 2 ^ 31 → s.numCreated_ = k
  answer : ∀ {t i n}, s.constructing t = some (i, n) → 0 ≤ i ∧ i < k
  unused : ∀ {t i n}, s.constructing t = some (i, n) → ∀ x ∈ s.threads, x.num ≠ i + 1
  unique : ∀ {t u i m n}, s.constructing t = some (i, m) → s.constructing u = some (i, n) → t = u
  num : ∀ x ∈ s.threads, 0 < x.num ∧ x.num ≤ k
  name_ : ∀ x ∈ s.threads, x.name_ = if x.n.isEmpty then defaultName x.num else x.n
  distinct : s.threads.Pairwise fun x y => x.num ≠ y.num

theorem addAndGet_one {i : ℤ} (hnonneg : 0 ≤ i) (hlt : i < 2 ^ 31) :
    AtomicInt32.addAndGet i 1 = if i + 1 < 2 ^ 31 then .ok (i + 1) else .error .overflow := by
  rw [AtomicInt32.addAndGet, CInt.ofInt_add (by omega) (by decide)]
  split
  · exact CInt.get_ofInt _ (by omega)
  · rw [CInt.ofInt, if_neg (by omega), CInt.get]

theorem eq_of_addAndGet_one {i num : ℤ} (hnonneg : 0 ≤ i) (hlt : i < 2 ^ 31)
    (h : AtomicInt32.addAndGet i 1 = .ok num) : num = i + 1 := by
  rw [addAndGet_one hnonneg hlt] at h
  split at h <;> cases h
  rfl

/-- **Step lemma.** -/
theorem Numbered.step (h : Numbered k s) (hk : k + (if a.isIncrement then 1 else 0) ≤ 2 ^ 31)
    (hstep : Step s a (.ok s')) : Numbered (k + if a.isIncrement then 1 else 0) s' := by
  cases hstep with
  | @increment t n hfree =>
    have hnum := h.numCreated_ hk
    have hothers : ∀ {u i m}, Function.update s.constructing t
        (some ((AtomicInt32.getAndAdd s.numCreated_ 1).1, n)) u = some (i, m) →
        u = t ∧ i = k ∨ u ≠ t ∧ s.constructing u = some (i, m) := by
      intro u i m hu
      by_cases hut : u = t
      · rw [hut, Function.update_self] at hu
        cases hu
        exact .inl ⟨hut, hnum⟩
      · rw [Function.update_of_ne hut] at hu
        exact .inr ⟨hut, hu⟩
    refine ⟨fun hlt => ?_, fun hu => ?_, fun hu x hx => ?_, fun hu hv => ?_, fun x hx => ?_,
      h.name_, h.distinct⟩
    · replace hlt : k + 1 < 2 ^ 31 := hlt
      show CInt.cast (s.numCreated_ + 1) = ((k + 1 : ℕ) : ℤ)
      rw [hnum, CInt.cast_of_inRange (by omega)]
      push_cast
      rfl
    · show 0 ≤ _ ∧ _ < ((k + 1 : ℕ) : ℤ)
      rcases hothers hu with ⟨-, rfl⟩ | ⟨-, hu⟩
      · omega
      · have := h.answer hu
        omega
    · rcases hothers hu with ⟨-, rfl⟩ | ⟨-, hu⟩
      · have := h.num x hx
        omega
      · exact h.unused hu x hx
    · rcases hothers hu with ⟨hut, hi⟩ | ⟨-, hu⟩
      · rcases hothers hv with ⟨hvt, -⟩ | ⟨-, hv⟩
        · exact hut.trans hvt.symm
        · have := h.answer hv
          omega
      · rcases hothers hv with ⟨-, hi⟩ | ⟨-, hv⟩
        · have := h.answer hu
          omega
        · exact h.unique hu hv
    · show 0 < x.num ∧ x.num ≤ ((k + 1 : ℕ) : ℤ)
      have := h.num x hx
      omega
  | @setDefaultName t answer n _ hpc hr =>
    obtain ⟨num, hnum, rfl⟩ := exists_of_map_eq_ok hr
    obtain ⟨hnonneg, hlt⟩ := h.answer hpc
    replace hk : k ≤ 2 ^ 31 := hk
    obtain rfl := eq_of_addAndGet_one hnonneg (by omega) hnum
    have hothers : ∀ {u i m}, Function.update s.constructing t none u = some (i, m) →
        u ≠ t ∧ s.constructing u = some (i, m) := by
      intro u i m hu
      by_cases hut : u = t
      · rw [hut, Function.update_self] at hu
        cases hu
      · rw [Function.update_of_ne hut] at hu
        exact ⟨hut, hu⟩
    refine ⟨h.numCreated_, fun hu => h.answer (hothers hu).2, fun hu x hx heq => ?_,
      fun hu hv => h.unique (hothers hu).2 (hothers hv).2, fun x hx => ?_, fun x hx => ?_,
      List.pairwise_cons.mpr ⟨fun x hx => (h.unused hpc x hx).symm, h.distinct⟩⟩
    · obtain ⟨hne, hu⟩ := hothers hu
      rcases List.mem_cons.mp hx with rfl | hx
      · obtain rfl : answer = _ := add_right_cancel heq
        exact hne (h.unique hu hpc)
      · exact h.unused hu x hx heq
    · rcases List.mem_cons.mp hx with rfl | hx
      · show 0 < answer + 1 ∧ answer + 1 ≤ (k : ℤ)
        omega
      · exact h.num x hx
    · rcases List.mem_cons.mp hx with rfl | hx
      · rfl
      · exact h.name_ x hx

/-- **Run lemma.** -/
theorem Numbered.run {s₀ : ThreadNames T} {w : List (Action T)} (hinit : (machine T).init s₀)
    (hrun : (machine T).Run s₀ w s) (hcount : w.countP Action.isIncrement ≤ 2 ^ 31) :
    Numbered (w.countP Action.isIncrement) s := by
  induction hrun with
  | nil =>
    obtain ⟨hzero, hnone, hnil⟩ := hinit
    refine ⟨fun _ => hzero, fun hu => ?_, fun hu => ?_, fun hu => ?_, ?_, ?_, ?_⟩
    · cases (hnone _).symm.trans hu
    · cases (hnone _).symm.trans hu
    · cases (hnone _).symm.trans hu
    · simp [hnil]
    · simp [hnil]
    · simp [hnil]
  | snoc hrun hstep ih =>
    rw [List.countP_append, List.countP_singleton] at hcount ⊢
    exact (ih ((Nat.le_add_right ..).trans hcount)).step hcount hstep

/-! ## The names -/

/-- The buffer is large enough. -/
theorem defaultName_eq {num : ℤ} (hpos : 0 < num) (hle : num ≤ 2 ^ 31) :
    defaultName num = bytes "Thread" ++ decimal num := by
  have hlen : (decimal num).length ≤ 10 :=
    (LogTime.length_decimal_le_iff (by decide) hpos.le).mpr (by omega)
  refine List.take_of_length_le ?_
  rw [List.length_append, show (bytes "Thread").length = 6 from rfl]
  omega

theorem defaultName_inj {i j : ℤ} (hi : 0 < i ∧ i ≤ 2 ^ 31) (hj : 0 < j ∧ j ≤ 2 ^ 31)
    (h : defaultName i = defaultName j) : i = j := by
  rw [defaultName_eq hi.1 hi.2, defaultName_eq hj.1 hj.2] at h
  exact decimal_injective (List.append_cancel_left h)

/-- **Default names.** Let any threads construct `Thread`s, with and without a name, at the same
time. As long as there are at most `2 ^ 31` of them: no two `Thread`s without a name of their own
get the same one, each of them gets `Thread` and the number of one of the constructors, whole,
and the other `Thread`s keep theirs. The addition in `addAndGet` overflows in the constructor
that has got the number `2 ^ 31`, and in no other. -/
theorem default_names_distinct {s₀ : ThreadNames T} {w : List (Action T)}
    (hinit : (machine T).init s₀) (hrun : (machine T).Run s₀ w s)
    (hcount : w.countP Action.isIncrement ≤ 2 ^ 31) :
    (s.threads.filter (·.n.isEmpty)).Pairwise (fun x y => x.name_ ≠ y.name_) ∧
    (∀ x ∈ s.threads, if x.n.isEmpty then
      0 < x.num ∧ x.num ≤ w.countP Action.isIncrement ∧
        x.name_ = bytes "Thread" ++ decimal x.num
      else x.name_ = x.n) ∧
    ∀ t r, Step s (.setDefaultName t) r →
      (r = .error .overflow ↔ ∃ n, s.constructing t = some (2 ^ 31 - 1, n)) := by
  have h := Numbered.run hinit hrun hcount
  have hbound : ∀ x ∈ s.threads, 0 < x.num ∧ x.num ≤ 2 ^ 31 := fun x hx => by
    have := h.num x hx
    omega
  refine ⟨?_, fun x hx => ?_, fun t r hstep => ?_⟩
  · rw [List.pairwise_filter]
    refine h.distinct.imp_of_mem fun {x y} hx hy hne hxn hyn heq => hne ?_
    rw [h.name_ x hx, h.name_ y hy, if_pos hxn, if_pos hyn] at heq
    exact defaultName_inj (hbound x hx) (hbound y hy) heq
  · rw [h.name_ x hx]
    split
    · obtain ⟨hpos, hle⟩ := h.num x hx
      exact ⟨hpos, hle, defaultName_eq hpos (hbound x hx).2⟩
    · rfl
  · cases hstep with
    | @setDefaultName _ answer n _ hpc hr =>
      obtain ⟨hnonneg, hlt⟩ := h.answer hpc
      rw [addAndGet_one hnonneg (by omega)] at hr
      rw [← hr, hpc]
      by_cases hin : answer + 1 < 2 ^ 31
      · rw [if_pos hin]
        refine iff_of_false nofun ?_
        rintro ⟨m, heq⟩
        have := (Prod.mk.inj (Option.some.inj heq)).1
        omega
      · rw [if_neg hin, show answer = 2 ^ 31 - 1 by omega]
        exact iff_of_true rfl ⟨n, rfl⟩

/-- The thread that takes its number first finishes last. -/
theorem default_names_distinct_two : ∃ s : ThreadNames Bool,
    s.threads.map NamedThread.name_ = [bytes "Thread1", bytes "Thread2"] ∧
    (s.threads.filter (·.n.isEmpty)).Pairwise (fun x y => x.name_ ≠ y.name_) := by
  have hinit : (machine Bool).init ⟨0, fun _ => none, []⟩ := ⟨rfl, fun _ => rfl, rfl⟩
  have hrun : (machine Bool).Run ⟨0, fun _ => none, []⟩
      [.increment true [], .increment false [], .setDefaultName false, .setDefaultName true] _ :=
    .cons (.increment rfl) <| .cons (.increment rfl) <| .cons (.setDefaultName rfl rfl) <|
      .single (.setDefaultName rfl rfl)
  exact ⟨_, by decide, (default_names_distinct hinit hrun (by decide)).1⟩

end ThreadNames

end Dxian
