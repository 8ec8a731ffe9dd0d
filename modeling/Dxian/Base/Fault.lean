import Mathlib.Tactic.TypeStar

/-!
# Faults

Functions of the source that can stop the program end in `Except Fault` here.
-/

namespace Dxian

/-- What stops the program: a failed `assert`, a dangling or null pointer, a
second `delete`, an access past the end of a vector, `LOG_SYSFATAL`, an overflow of
an `int` or an `int64_t`, an array of negative length or one that is too large for the
stack, a `std::bad_alloc`, `abort()` or an exception in a thread where nothing catches it. -/
inductive Fault
  | assertion
  | useAfterFree
  | nullPointer
  | doubleFree
  | outOfRange
  | sysFatal
  | overflow
  | negativeLength
  | stackOverflow
  | badAlloc
  | aborted
deriving DecidableEq

/-- `assert(b)`. -/
def check (b : Bool) : Except Fault PUnit :=
  if b then .ok ⟨⟩ else .error .assertion

@[simp] theorem check_true : check true = .ok ⟨⟩ := rfl

@[simp] theorem check_false : check false = .error .assertion := rfl

theorem of_check {b : Bool} {x : PUnit} (h : check b = .ok x) : b = true := by
  cases b with
  | true => rfl
  | false => cases h

/-- `v[i]` of a vector. -/
def index {α : Type*} (v : List α) (i : Nat) : Except Fault α :=
  match v[i]? with
  | some a => .ok a
  | none => .error .outOfRange

theorem index_eq {α : Type*} {v : List α} {i : Nat} {a : α} (h : v[i]? = some a) :
    index v i = .ok a := by
  rw [index, h]

theorem eq_ok_of_toOption {ε α : Type*} {x : Except ε α} {a : α} (h : x.toOption = some a) :
    x = .ok a := by
  cases x with
  | error e => cases h
  | ok b => cases h; rfl

theorem map_eq_of_toOption {ε α β : Type*} {x : Except ε α} {f : α → β} {b : β}
    (h : x.toOption.map f = some b) : x.map f = .ok b := by
  cases x with
  | error e => simp [Except.toOption] at h
  | ok a => simpa [Except.toOption, Except.map] using h

theorem exists_of_map_eq_ok {ε α β : Type*} {x : Except ε α} {f : α → β} {b : β}
    (h : x.map f = .ok b) : ∃ a, x = .ok a ∧ f a = b := by
  cases x with
  | error e => cases h
  | ok a => cases h; exact ⟨a, rfl, rfl⟩

theorem error_of_map_eq {ε α β : Type*} {x : Except ε α} {f : α → β} {e : ε}
    (h : x.map f = .error e) : x = .error e := by
  cases x with
  | error e => cases h; rfl
  | ok a => cases h

theorem exists_of_bind_eq_ok {ε : Type*} {α β : Type} {x : Except ε α} {f : α → Except ε β}
    {b : β} (h : x >>= f = .ok b) : ∃ a, x = .ok a ∧ f a = .ok b := by
  cases x with
  | error e => cases h
  | ok a => exact ⟨a, rfl, h⟩

end Dxian
