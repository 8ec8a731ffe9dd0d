import Mathlib.Data.List.Induction

/-!
# Labelled transition systems whose steps may fail

A step of a `System` carries a label and ends in `Except ε σ`: `.ok` is the next
state, `.error` is a fault of the program (a failed assertion, a dangling
pointer). Runs follow the `.ok` steps and keep the list of labels, so that a
property of the order of events is a property of a list.

## Main definitions

- `System.Run` — finite runs with their labels
- `System.Reachable` — states reached from an initial state
- `System.Safe` — no fault is reachable
- `System.Respects` — lists whose labels are allowed by the labels before them
- `Projection` — every step of one system is a run of another
-/

namespace Transition

/-- A labelled transition system with failing steps. -/
structure System (σ α ε : Type*) where
  init : σ → Prop
  step : σ → α → Except ε σ → Prop

namespace System

variable {σ α ε : Type*} (M : System σ α ε)

/-- `M.Run s w t`: the labels `w`, in this order, lead from `s` to `t`. -/
inductive Run (s : σ) : List α → σ → Prop
  | nil : Run s [] s
  | snoc {w : List α} {t u : σ} {a : α} :
      Run s w t → M.step t a (.ok u) → Run s (w ++ [a]) u

/-- `t` ends a run that starts in an initial state. -/
def Reachable (t : σ) : Prop := ∃ s w, M.init s ∧ M.Run s w t

/-- No step from a reachable state faults. -/
def Safe : Prop := ∀ s a e, M.Reachable s → ¬ M.step s a (.error e)

variable {M} {s t u : σ} {a : α} {v w : List α}

theorem Run.single (h : M.step s a (.ok t)) : M.Run s [a] t :=
  .snoc .nil h

theorem Run.append (hv : M.Run s v t) (hw : M.Run t w u) : M.Run s (v ++ w) u := by
  induction hw with
  | nil => simpa using hv
  | snoc _ hstep ih => rw [← List.append_assoc]; exact .snoc ih hstep

theorem Run.cons (h : M.step s a (.ok t)) (hw : M.Run t w u) : M.Run s (a :: w) u :=
  (Run.single h).append hw

theorem Run.eq_of_nil (h : M.Run s [] u) : u = s := by
  generalize hx : ([] : List α) = x at h
  cases h with
  | nil => rfl
  | snoc => simp at hx

/-- A nonempty run starts with a step of its first label. -/
theorem Run.head (h : M.Run s (a :: w) u) : ∃ t, M.step s a (.ok t) ∧ M.Run t w u := by
  generalize hx : a :: w = x at h
  induction h generalizing w with
  | nil => simp at hx
  | @snoc x t u b hrun hstep ih =>
    cases x with
    | nil =>
      obtain ⟨rfl, rfl⟩ : a = b ∧ w = [] := by simpa using hx
      exact ⟨u, hrun.eq_of_nil ▸ hstep, .nil⟩
    | cons c x =>
      obtain ⟨rfl, rfl⟩ : a = c ∧ w = x ++ [b] := by simpa using hx
      obtain ⟨m, hm, hrest⟩ := ih rfl
      exact ⟨m, hm, hrest.snoc hstep⟩

/-- A run over a concatenation passes through a state between the two parts. -/
theorem Run.split (h : M.Run s (v ++ w) u) : ∃ t, M.Run s v t ∧ M.Run t w u := by
  induction v generalizing s with
  | nil => exact ⟨s, .nil, h⟩
  | cons a v ih =>
    obtain ⟨m, hm, hrest⟩ := h.head
    obtain ⟨t, hv, hw⟩ := ih hrest
    exact ⟨t, .cons hm hv, hw⟩

/-- **Invariant rule**, relative to a condition `P` on the labels of the run. -/
theorem Run.preserves {P : α → Prop} {I : σ → Prop}
    (hstep : ∀ {s a t}, P a → I s → M.step s a (.ok t) → I t)
    (h : M.Run s w t) (hw : ∀ a ∈ w, P a) (hs : I s) : I t := by
  induction h with
  | nil => exact hs
  | snoc _ hlast ih =>
    exact hstep (hw _ (by simp)) (ih fun a ha => hw a (by simp [ha])) hlast

/-- **Safety rule**: steps that keep `I` and carry labels in `Q` give runs that
keep `I` and carry labels in `Q`. -/
theorem Run.emits {P Q : α → Prop} {I : σ → Prop}
    (hstep : ∀ {s a t}, P a → I s → M.step s a (.ok t) → I t ∧ Q a)
    (h : M.Run s w t) (hw : ∀ a ∈ w, P a) (hs : I s) : I t ∧ ∀ a ∈ w, Q a := by
  induction h with
  | nil => exact ⟨hs, by simp⟩
  | @snoc w t u a _ hlast ih =>
    obtain ⟨ht, hq⟩ := ih fun a ha => hw a (by simp [ha])
    obtain ⟨hu, ha⟩ := hstep (hw a (by simp)) ht hlast
    refine ⟨hu, fun b hb => ?_⟩
    rcases List.mem_append.mp hb with hb | hb
    · exact hq b hb
    · rw [List.mem_singleton.mp hb]; exact ha

/-- **Queue rule**: if every step appends what its label puts in and removes from
the front what its label takes out, then a run takes out in order what was put in. -/
theorem Run.conserves {β : Type*} {contents : σ → List β} {input output : α → List β}
    (hstep : ∀ {s a t}, M.step s a (.ok t) → contents s ++ input a = output a ++ contents t)
    (h : M.Run s w t) :
    contents s ++ w.flatMap input = w.flatMap output ++ contents t := by
  induction h with
  | nil => simp
  | @snoc w t u a _ hlast ih =>
    calc contents s ++ (w ++ [a]).flatMap input
        = (contents s ++ w.flatMap input) ++ input a := by simp
      _ = w.flatMap output ++ (contents t ++ input a) := by rw [ih, List.append_assoc]
      _ = (w ++ [a]).flatMap output ++ contents u := by rw [hstep hlast]; simp

theorem Run.exists_of_prefix (h : M.Run s w u) (hv : v <+: w) : ∃ t, M.Run s v t := by
  obtain ⟨x, rfl⟩ := hv
  obtain ⟨t, ht, -⟩ := h.split
  exact ⟨t, ht⟩

/-- A run over a longer list by one label ends with a step of that label. -/
theorem Run.last (h : M.Run s (w ++ [a]) u) : ∃ t, M.Run s w t ∧ M.step t a (.ok u) := by
  obtain ⟨t, hw, ha⟩ := h.split
  obtain ⟨m, hstep, hnil⟩ := ha.head
  exact ⟨t, hw, hnil.eq_of_nil ▸ hstep⟩

/-- Runs of a deterministic system are determined by their labels. -/
theorem Run.unique (hstep : ∀ {s a t u}, M.step s a (.ok t) → M.step s a (.ok u) → t = u)
    (h : M.Run s w t) (h' : M.Run s w u) : t = u := by
  induction h generalizing u with
  | nil => exact h'.eq_of_nil.symm
  | snoc _ hlast ih =>
    obtain ⟨m, hm, hlast'⟩ := h'.last
    rw [← ih hm] at hlast'
    exact hstep hlast hlast'

/-- **Replay**: a function that computes successors computes runs. -/
theorem Run.of_foldlM {next : σ → α → Option σ}
    (hnext : ∀ {s a t}, next s a = some t → M.step s a (.ok t))
    (h : w.foldlM next s = some t) : M.Run s w t := by
  induction w generalizing s with
  | nil =>
    obtain rfl : s = t := by simpa using h
    exact .nil
  | cons a w ih =>
    rw [List.foldlM_cons] at h
    obtain ⟨u, hu, hrest⟩ := Option.bind_eq_some_iff.mp h
    exact .cons (hnext hu) (ih hrest)

/-- **Refutation**: a function that computes every successor computes every run. -/
theorem Run.foldlM_eq {next : σ → α → Option σ}
    (hnext : ∀ {s a t}, M.step s a (.ok t) → next s a = some t)
    (h : M.Run s w t) : w.foldlM next s = some t := by
  induction h with
  | nil => rfl
  | snoc _ hstep ih =>
    rw [List.foldlM_append, ih]
    simp [hnext hstep]

theorem Reachable.of_init (h : M.init s) : M.Reachable s := ⟨s, [], h, .nil⟩

theorem Reachable.step (h : M.Reachable s) (hs : M.step s a (.ok t)) : M.Reachable t := by
  obtain ⟨i, w, hi, hw⟩ := h
  exact ⟨i, w ++ [a], hi, hw.snoc hs⟩

theorem Reachable.run (h : M.Reachable s) (hw : M.Run s w t) : M.Reachable t := by
  obtain ⟨i, v, hi, hv⟩ := h
  exact ⟨i, v ++ w, hi, hv.append hw⟩

/-- **Induction over reachable states**. -/
theorem Reachable.invariant {I : σ → Prop} (hinit : ∀ {s}, M.init s → I s)
    (hstep : ∀ {s a t}, I s → M.step s a (.ok t) → I t) (h : M.Reachable s) : I s := by
  obtain ⟨i, w, hi, hw⟩ := h
  exact hw.preserves (P := fun _ => True) (fun _ => hstep) (fun _ _ => trivial) (hinit hi)

/-! ### Histories -/

/-- The labels of `v ++ [b]` occur in this order up to a label, or it is the last of them. -/
theorem concat_sublist_concat {b : α} :
    (v ++ [b]).Sublist (w ++ [a]) ↔ (v ++ [b]).Sublist w ∨ a = b ∧ v.Sublist w := by
  rw [← List.reverse_sublist, List.reverse_concat, List.reverse_concat, List.sublist_cons_iff,
    ← List.reverse_concat, List.reverse_sublist]
  refine or_congr_right ⟨?_, ?_⟩
  · rintro ⟨r, hr, hsub⟩
    rw [List.reverse_concat] at hr
    obtain ⟨rfl, rfl⟩ := List.cons.inj hr
    exact ⟨rfl, List.reverse_sublist.mp hsub⟩
  · rintro ⟨rfl, hsub⟩
    exact ⟨v.reverse, List.reverse_concat, List.reverse_sublist.mpr hsub⟩

theorem pair_sublist_concat {b c : α} :
    [b, c].Sublist (w ++ [a]) ↔ [b, c].Sublist w ∨ a = c ∧ b ∈ w := by
  simpa using concat_sublist_concat (v := [b]) (w := w) (a := a) (b := c)

theorem triple_sublist_concat {b c d : α} :
    [b, c, d].Sublist (w ++ [a]) ↔ [b, c, d].Sublist w ∨ a = d ∧ [b, c].Sublist w :=
  concat_sublist_concat (v := [b, c])

/-- Every label of the list is allowed by the labels before it. -/
def Respects (R : List α → α → Prop) (w : List α) : Prop :=
  ∀ v a, v ++ [a] <+: w → R v a

theorem respects_nil (R : List α → α → Prop) : Respects R [] := by
  intro v a h
  simp at h

theorem respects_append_singleton {R : List α → α → Prop} :
    Respects R (w ++ [a]) ↔ Respects R w ∧ R w a := by
  constructor
  · intro h
    exact ⟨fun v b hv => h v b (hv.trans (List.prefix_append ..)), h w a List.prefix_rfl⟩
  · intro ⟨hw, ha⟩ v b hv
    rcases List.prefix_concat_iff.mp hv with heq | hv
    · obtain ⟨rfl, rfl⟩ : v = w ∧ b = a := by simpa using heq
      exact ha
    · exact hw v b hv

theorem Respects.of_prefix {R : List α → α → Prop} (h : Respects R w) (hv : v <+: w) :
    Respects R v :=
  fun x a hx => h x a (hx.trans hv)

theorem Respects.and {R Q : List α → α → Prop} (hR : Respects R w) (hQ : Respects Q w) :
    Respects (fun v a => R v a ∧ Q v a) w :=
  fun v a h => ⟨hR v a h, hQ v a h⟩

/-- Labels that are allowed after anything. -/
theorem Respects.append {R : List α → α → Prop} (hv : Respects R v)
    (hw : ∀ a ∈ w, ∀ x, R x a) : Respects R (v ++ w) := by
  induction w using List.reverseRecOn with
  | nil => simpa using hv
  | append_singleton w a ih =>
    rw [← List.append_assoc]
    exact respects_append_singleton.mpr ⟨ih fun b hb => hw b (by simp [hb]), hw a (by simp) _⟩

/-- If the steps are allowed by the labels before them, so are the labels of a run. -/
theorem Run.respects {R : List α → α → Prop}
    (hstep : ∀ {v t a u}, M.Run s v t → M.step t a (.ok u) → R v a) (h : M.Run s w t) :
    Respects R w := by
  induction h with
  | nil => exact respects_nil R
  | snoc hrun hlast ih => exact respects_append_singleton.mpr ⟨ih, hstep hrun hlast⟩

/-- **Progress rule**: if the labels that the history allows do not fail, a list of
allowed labels has a run. -/
theorem Respects.exists_run {R : List α → α → Prop}
    (hstep : ∀ {v t a}, M.Run s v t → R v a → ∃ u, M.step t a (.ok u)) (h : Respects R w) :
    ∃ t, M.Run s w t := by
  induction w using List.reverseRecOn with
  | nil => exact ⟨s, .nil⟩
  | append_singleton w a ih =>
    obtain ⟨hw, ha⟩ := respects_append_singleton.mp h
    obtain ⟨t, ht⟩ := ih hw
    obtain ⟨u, hu⟩ := hstep ht ha
    exact ⟨u, ht.snoc hu⟩

end System

/-- Every step of `M` from a reachable state is, seen through `state` and `label`,
a run of `N`. -/
structure Projection {σ α ε τ β δ : Type*} (M : System σ α ε) (N : System τ β δ) where
  state : σ → τ
  label : α → List β
  init : ∀ {s}, M.init s → N.Reachable (state s)
  step : ∀ {s a t}, M.Reachable s → M.step s a (.ok t) → N.Run (state s) (label a) (state t)

namespace Projection

variable {σ α ε τ β δ : Type*} {M : System σ α ε} {N : System τ β δ} (f : Projection M N)
variable {s t : σ} {w : List α}

/-- Runs project to runs. -/
theorem run (hs : M.Reachable s) (h : M.Run s w t) :
    N.Run (f.state s) (w.flatMap f.label) (f.state t) := by
  induction h with
  | nil => simpa using .nil
  | snoc hrun hstep ih => simpa using ih.append (f.step (hs.run hrun) hstep)

/-- What holds of the reachable states of `N` holds of the projected states of `M`. -/
theorem reachable (h : M.Reachable s) : N.Reachable (f.state s) := by
  obtain ⟨i, w, hi, hw⟩ := h
  exact (f.init hi).run (f.run (.of_init hi) hw)

end Projection

end Transition
