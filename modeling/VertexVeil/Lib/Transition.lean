import Mathlib.Init

/-!
# Machines with labelled steps

A machine has starting states and, for each action, at most one next state (`none` when the action is not enabled).
`Reachable` is the set of states its runs lead to, `Reachable.invariant` the rule that proves a property of all of them
from one step lemma, and `run` executes a list of actions, so that a concrete run is found by computation. `restrict` takes
away the steps that a guard does not let through.
-/

namespace Transition

/-- A machine: where it may start, and what an action does in a state. -/
structure Machine (σ α : Type) where
  start : σ → Prop
  exec : σ → α → Option σ

namespace Machine

variable {σ α : Type} (M : Machine σ α)

/-- The states the runs of a machine lead to. -/
inductive Reachable : σ → Prop where
  | start {s : σ} (h : M.start s) : Reachable s
  | step {s s' : σ} {a : α} (h : Reachable s) (hs : M.exec s a = some s') : Reachable s'

/-- Run a list of actions, one after the other. -/
def run : σ → List α → Option σ
  | s, [] => some s
  | s, a :: as => (M.exec s a).bind (fun s' => run s' as)

/-- The machine that takes only the steps a guard lets through. -/
def restrict (g : σ → α → Bool) : Machine σ α where
  start := M.start
  exec s a := if g s a then M.exec s a else none

variable {M}

/-- A property that holds where the machine starts and that every step out of a reachable state keeps holds of every
reachable state. -/
theorem Reachable.invariant {P : σ → Prop} (h0 : ∀ s, M.start s → P s)
    (hstep : ∀ s a s', M.Reachable s → P s → M.exec s a = some s' → P s') {s : σ} (h : M.Reachable s) : P s := by
  induction h with
  | start h => exact h0 _ h
  | step h hs ih => exact hstep _ _ _ h ih hs

/-- Where a run ends is reachable when its start is. -/
theorem Reachable.run {s s' : σ} (h : M.Reachable s) {as : List α} (hr : M.run s as = some s') : M.Reachable s' := by
  induction as generalizing s with
  | nil =>
    rw [Machine.run, Option.some.injEq] at hr
    exact hr ▸ h
  | cons a as ih =>
    rw [Machine.run, Option.bind_eq_some_iff] at hr
    obtain ⟨t, ht, hr⟩ := hr
    exact ih (h.step ht) hr

theorem exec_restrict {g : σ → α → Bool} {s s' : σ} {a : α} :
    (M.restrict g).exec s a = some s' ↔ g s a = true ∧ M.exec s a = some s' := by
  simp only [restrict]
  split
  · rename_i hg
    simp only [hg, true_and]
  · rename_i hg
    simp only [hg, false_and, reduceCtorEq, Bool.false_eq_true]

/-- What a restricted machine reaches, the machine reaches. -/
theorem Reachable.of_restrict {g : σ → α → Bool} {s : σ} (h : (M.restrict g).Reachable s) : M.Reachable s := by
  induction h with
  | start h => exact .start h
  | step _ hs ih => exact ih.step (exec_restrict.mp hs).2

end Machine

end Transition
