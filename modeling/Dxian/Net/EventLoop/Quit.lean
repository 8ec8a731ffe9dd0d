import Dxian.Net.EventLoop
import Mathlib.Algebra.Order.Group.Nat

/-!
# The end of the loop

After a `quit`, by whatever thread, the loop finishes the iteration that it is in and
returns. Functors that it has not swapped out by then stay in `pendingFunctors_`.

## Main results

- `Pc.stage`, `Step.stage_le` — the way to the end of the iteration
- `Run.pending_eq` — the functors that were queued after the last swap
- `quit_finishes_iteration` — how many polls follow, and which functors still run
-/

namespace Dxian.EventLoop

open Transition

variable {T F C : Type*} [DecidableEq T] {l₀ l m n : EventLoop T F C} {a : Action T F C}
  {v w : List (Action T F C)}

/-! ## The rest of the iteration -/

/-- How far the end of the iteration is. -/
def Pc.stage : Pc F C → ℕ
  | polling => 5
  | handling .. => 4
  | swapping => 3
  | running .. => 2
  | testing => 1
  | exited => 0

/-- The swap of this iteration is still to come. -/
@[reducible] def Pc.BeforeSwap (pc : Pc F C) : Prop := 2 < pc.stage

/-- **Step lemma** after a `quit`: the loop thread does not go back. -/
theorem Step.stage_le (h : Step l a (.ok m)) (hq : l.quit_ = true) :
    m.pc.stage ≤ l.pc.stage := by
  cases h with
  | queueInLoop hcall hpc => exact Nat.le_refl _
  | quit hcall hpc => exact Nat.le_refl _
  | wakeup hcall => exact Nat.le_refl _
  | test hpc =>
    rw [hpc, if_pos hq]
    exact Nat.zero_le _
  | _ hpc =>
    rw [hpc]
    simp [Pc.stage]

theorem Run.quit_ (hrun : (machine T F C).Run l w m) (hq : l.quit_ = true) : m.quit_ = true := by
  induction hrun with
  | nil => exact hq
  | snoc _ hstep ih => exact Step.quit_ hstep ih

/-- **Run lemma.** -/
theorem Run.stage_le (hrun : (machine T F C).Run l w m) (hq : l.quit_ = true) :
    m.pc.stage ≤ l.pc.stage := by
  induction hrun with
  | nil => exact Nat.le_refl _
  | snoc hrun hstep ih => exact (Step.stage_le hstep (Run.quit_ hrun hq)).trans ih

def Action.isPoll : Action T F C → Bool
  | poll _ => true
  | _ => false

def Action.isSwap : Action T F C → Bool
  | swap => true
  | _ => false

theorem Step.of_isPoll (h : Step l a (.ok m)) (ha : a.isPoll = true) :
    l.pc.stage = 5 ∧ m.pc.stage = 4 := by
  cases h with
  | poll hpc => rw [hpc]; exact ⟨rfl, rfl⟩
  | _ => cases ha

theorem Step.of_isSwap (h : Step l a (.ok m)) (ha : a.isSwap = true) :
    l.pc.stage = 3 ∧ m.pc.stage = 2 := by
  cases h with
  | swap hpc => rw [hpc]; exact ⟨rfl, rfl⟩
  | _ => cases ha

/-- After a `quit` the loop thread passes each stage once. -/
theorem Run.countP_le {p : Action T F C → Bool} {k : ℕ}
    (hp : ∀ {l m a}, Step l a (.ok m) → p a = true → l.pc.stage = k + 1 ∧ m.pc.stage = k)
    (hrun : (machine T F C).Run l w m) (hq : l.quit_ = true) :
    w.countP p ≤ if k < l.pc.stage ∧ m.pc.stage ≤ k then 1 else 0 := by
  induction hrun with
  | nil => exact Nat.zero_le _
  | @snoc w m n a hrun hstep ih =>
    have hle := Run.stage_le hrun hq
    have hle' := Step.stage_le hstep (Run.quit_ hrun hq)
    rw [List.countP_append, List.countP_singleton]
    by_cases ha : p a = true
    · obtain ⟨hbefore, hafter⟩ := hp hstep ha
      rw [if_neg (by omega)] at ih
      rw [if_pos ha, if_pos (by omega)]
      omega
    · rw [if_neg ha]
      split at ih <;> split <;> omega

/-! ## The functors that stay -/

/-- **Step lemma** for the functors behind the last swap. -/
theorem Step.pending_eq (h : Step l a (.ok m)) (ha : a.isSwap = false) :
    m.pendingFunctors = l.pendingFunctors ++ a.pushed := by
  cases h with
  | swap => cases ha
  | queueInLoop => rfl
  | _ => exact (List.append_nil _).symm

theorem Run.pending_eq (hrun : (machine T F C).Run l w m) (hw : ∀ a ∈ w, a.isSwap = false) :
    m.pendingFunctors = l.pendingFunctors ++ w.flatMap Action.pushed := by
  induction hrun with
  | nil => exact (List.append_nil _).symm
  | snoc _ hstep ih =>
    rw [Step.pending_eq hstep (hw _ (by simp)), ih fun a ha => hw a (by simp [ha]),
      List.flatMap_append, List.flatMap_singleton, List.append_assoc]

/-- Only a swap ends the time before it. -/
theorem Run.beforeSwap_of_not_swap (hrun : (machine T F C).Run l w m)
    (hw : ∀ a ∈ w, a.isSwap = false) (hl : l.pc.BeforeSwap) : m.pc.BeforeSwap := by
  induction hrun with
  | nil => exact hl
  | @snoc w m n a hrun hstep ih =>
    have hm := ih fun a ha => hw a (by simp [ha])
    have ha := hw a (by simp)
    cases hstep with
    | swap => cases ha
    | queueInLoop | quit | wakeup => exact hm
    | test hpc | runFunctor hpc | finishFunctor hpc | finishFunctors hpc =>
      rw [hpc] at hm
      simp [Pc.BeforeSwap, Pc.stage] at hm
    | _ => simp [Pc.BeforeSwap, Pc.stage]

/-! ## The wakeup of `quit` -/

/-- A loop that is to quit does not wait in `poll`: the wakeupfd is readable, or some thread is
about to make it so. -/
def QuitNoticed (l : EventLoop T F C) : Prop := l.quit_ = true → l.pc = .polling →
  0 < l.wakeupFd ∨ ∃ u, l.calling (.other u) ≠ .returned

/-- After every step. -/
theorem Step.quitNoticed (h : Step l a (.ok m)) : m.QuitNoticed := by
  intro hq hpolling
  cases h with
  | @queueInLoop t cb hcall hpc =>
    have hpolling' : l.pc = .polling := hpolling
    rw [hpolling'] at hpc
    cases t with
    | loop => exact (hpc rfl).elim
    | other u =>
      refine .inr ⟨u, ?_⟩
      simp [EventLoop.queueInLoop, Thread.isInLoopThread]
  | @quit t hcall hpc =>
    have hpolling' : l.pc = .polling := hpolling
    rw [hpolling'] at hpc
    cases t with
    | loop => exact (hpc rfl).elim
    | other u =>
      refine .inr ⟨u, ?_⟩
      simp [EventLoop.quit, Thread.isInLoopThread]
  | wakeup hcall => exact .inl (Nat.succ_pos _)
  | test hpc =>
    have hq' : l.quit_ = true := hq
    simp [hq'] at hpolling
  | _ => cases hpolling

/-- When the loop has returned, the functors that have not been run are pending. -/
theorem ran_append_pending (h₀ : (machine T F C).init l₀) (hrun : (machine T F C).Run l₀ w n)
    (hn : n.pc = .exited) :
    w.flatMap Action.ran ++ n.pendingFunctors = w.flatMap Action.pushed := by
  have hempty : l₀.outstanding = [] := by simp [outstanding, h₀.1, h₀.2.2.2.1, Pc.rest]
  have hleft : n.outstanding = n.pendingFunctors := by
    rw [outstanding, hn]
    rfl
  have hfifo := hrun.conserves Step.conserves
  rw [hempty, hleft, List.nil_append] at hfifo
  exact hfifo.symm

/-- After the swap that follows a `quit` there is no other one. -/
theorem pending_of_swap (hrun : (machine T F C).Run m w n) (hq : m.quit_ = true)
    (hswap : Action.swap ∈ w) : m.pc.BeforeSwap ∧ ∃ as bs, w = as ++ .swap :: bs ∧
      n.pendingFunctors = bs.flatMap Action.pushed := by
  obtain ⟨as, bs, rfl, -⟩ := List.eq_append_cons_of_mem hswap
  obtain ⟨p, hbefore, hafter⟩ := hrun.split
  obtain ⟨q, hstep, hafter⟩ := hafter.head
  obtain ⟨hp, hq'⟩ := Step.of_isSwap hstep rfl
  have hempty : q.pendingFunctors = [] := by
    cases hstep
    rfl
  have hquit := Run.quit_ hbefore hq
  have hle := Run.stage_le hbefore hq
  have hcount := Run.countP_le Step.of_isSwap hafter (Step.quit_ hstep hquit)
  rw [if_neg (by omega), Nat.le_zero, List.countP_eq_zero] at hcount
  have hbs := Run.pending_eq hafter fun a ha => Bool.not_eq_true _ ▸ hcount a ha
  rw [hempty, List.nil_append] at hbs
  refine ⟨?_, as, bs, rfl, hbs⟩
  show 2 < m.pc.stage
  omega

/-- **`quit` ends the loop after the iteration that it falls in.** At most one `poll` returns
after it, none if the loop thread itself has called it, and `poll` does not wait for its time
to be up. When the loop has returned, all functors that were queued before the `quit` have
run exactly if the swap was still to come in this iteration or nothing was pending; those
that have not run are the ones in `pendingFunctors_`. -/
theorem quit_finishes_iteration (h₀ : (machine T F C).init l₀)
    (hv : (machine T F C).Run l₀ v l) {t : Thread T} (hquit : Step l (.quit t) (.ok m))
    (hw : (machine T F C).Run m w n) :
    w.countP Action.isPoll ≤ (if t = .loop then 0 else 1) ∧
    (n.pc = .polling → 0 < n.wakeupFd ∨ ∃ u, n.calling (.other u) ≠ .returned) ∧
    (n.pc = .exited →
      (v.flatMap Action.pushed <+: (v ++ .quit t :: w).flatMap Action.ran ↔
        l.pc.BeforeSwap ∨ l.pendingFunctors = []) ∧
      (v ++ .quit t :: w).flatMap Action.ran ++ n.pendingFunctors =
        (v ++ .quit t :: w).flatMap Action.pushed) := by
  obtain ⟨hq, hpc, hpending, hloop⟩ : m.quit_ = true ∧ m.pc = l.pc ∧
      m.pendingFunctors = l.pendingFunctors ∧ (t = .loop → l.pc.InCallback) := by
    cases hquit with
    | quit hcall hpc => exact ⟨rfl, rfl, rfl, hpc⟩
  have hnoticed : n.QuitNoticed := by
    cases hw with
    | nil => exact Step.quitNoticed hquit
    | snoc _ hstep => exact Step.quitNoticed hstep
  refine ⟨?_, hnoticed (Run.quit_ hw hq), fun hn => ?_⟩
  · have hcount := Run.countP_le Step.of_isPoll hw hq
    by_cases ht : t = .loop
    · have hle : m.pc.stage ≤ 4 := by
        have hin := hloop ht
        rw [hpc]
        cases hp : l.pc with
        | polling =>
          rw [hp] at hin
          exact hin.elim
        | _ => simp [Pc.stage]
      rw [if_neg (by omega)] at hcount
      rw [if_pos ht]
      exact hcount
    · rw [if_neg ht]
      split at hcount <;> omega
  · have hfifo := ran_append_pending h₀ (hv.append (.cons hquit hw)) hn
    refine ⟨?_, hfifo⟩
    by_cases hswap : Action.swap ∈ w
    · -- the swap takes all that was queued before it
      obtain ⟨hbefore, as, bs, rfl, hbs⟩ := pending_of_swap hw hq hswap
      have hpushed : (v ++ .quit t :: (as ++ .swap :: bs)).flatMap Action.pushed =
          v.flatMap Action.pushed ++ as.flatMap Action.pushed ++ bs.flatMap Action.pushed := by
        simp [Action.pushed]
      rw [hpc] at hbefore
      rw [hbs, hpushed] at hfifo
      rw [List.append_cancel_right hfifo]
      exact iff_of_true (List.prefix_append ..) (.inl hbefore)
    · have hnot : ∀ a ∈ w, a.isSwap = false := by
        intro a ha
        cases a with
        | swap => exact absurd ha hswap
        | _ => rfl
      have hstage : ¬ l.pc.BeforeSwap := by
        intro hl
        have hbefore := Run.beforeSwap_of_not_swap hw hnot (hpc ▸ hl)
        rw [hn] at hbefore
        exact Nat.not_lt_zero _ hbefore
      have hpushed : (v ++ .quit t :: w).flatMap Action.pushed =
          v.flatMap Action.pushed ++ w.flatMap Action.pushed := by
        simp [Action.pushed]
      rw [Run.pending_eq hw hnot, hpending, hpushed, ← List.append_assoc] at hfifo
      have hran := List.append_cancel_right hfifo
      rw [← hran, or_iff_right hstage]
      constructor
      · intro hprefix
        have hlength := hprefix.length_le
        rw [List.length_append] at hlength
        exact List.length_eq_zero_iff.mp (by omega)
      · intro hnil
        simp only [hnil, List.append_nil, List.prefix_rfl]

/-- A thread queues a functor while the loop polls. -/
def polled : EventLoop Bool ℕ Unit :=
  { quit_ := false
    callingPendingFunctors := false
    pendingFunctors := [7]
    wakeupFd := 0
    pc := .polling
    calling := Function.update (fun _ => .returned) (.other true) .queueInLoop }

/-- Another thread quits then: the functor still runs. -/
theorem quit_finishes_iteration_while_polling :
    ∃ v w : List (Action Bool ℕ Unit), w.countP Action.isPoll ≤ 1 ∧
      v.flatMap Action.pushed = [7] ∧
      v.flatMap Action.pushed <+: (v ++ .quit (.other false) :: w).flatMap Action.ran := by
  have hv : (machine Bool ℕ Unit).Run ⟨false, false, [], 0, .testing, fun _ => .returned⟩
      [.test, .queueInLoop (.other true) 7] polled :=
    .cons (.test rfl) (.single (.queueInLoop rfl nofun))
  have hquit : polled.Step (.quit (.other false)) (.ok (polled.quit (.other false))) :=
    .quit rfl nofun
  have hw : (machine Bool ℕ Unit).Run (polled.quit (.other false)) [.poll [], .doPendingFunctors,
      .swap, .runFunctor 7, .finishFunctor, .finishFunctors, .test] _ :=
    .of_foldlM step_of_next rfl
  obtain ⟨hpolls, -, hran⟩ := quit_finishes_iteration ⟨rfl, rfl, rfl, rfl, rfl⟩ hv hquit hw
  exact ⟨_, _, hpolls, rfl, (hran rfl).1.mpr (.inl (by decide))⟩

end Dxian.EventLoop
