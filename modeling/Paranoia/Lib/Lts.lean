import Mathlib.Algebra.Order.Ring.Int
import Mathlib.Logic.Basic
import Mathlib.Data.List.Basic

/-!
# Runs of a labelled transition system

A system is a partial step function: a label that is not enabled in a state has
no successor. `exec` runs a fixed list of labels, and `execWhile` one whose steps
must all be allowed, which is what concrete traces are checked with. `Reach` is the
set of states some run ends in, restricted to runs whose every step is allowed by a
predicate on the state *before* the step, and is what invariants are proved about.
Where a state has one successor at most, `iterate` runs on, and `Leads` says that it
comes to a state of some kind.
-/

namespace Lts

universe u v

variable {σ : Type u} {α : Type v}

/-- Run a list of labels, failing at the first one that is not enabled. -/
def exec (step : σ → α → Option σ) : σ → List α → Option σ
  | s, [] => some s
  | s, l :: ls =>
      match step s l with
      | some s' => exec step s' ls
      | none => none

/-- The states reached from `s₀` by runs whose every step `ok` allows. -/
inductive Reach (step : σ → α → Option σ) (ok : σ → α → Prop) (s₀ : σ) : σ → Prop where
  | refl : Reach step ok s₀ s₀
  | tail {s s' : σ} {l : α} :
      Reach step ok s₀ s → ok s l → step s l = some s' → Reach step ok s₀ s'

variable {step : σ → α → Option σ} {ok : σ → α → Prop} {s₀ s s' : σ}

/-- Fewer restrictions, more runs. -/
theorem Reach.mono {ok' : σ → α → Prop} (h : ∀ s l, ok s l → ok' s l)
    (hr : Reach step ok s₀ s) : Reach step ok' s₀ s := by
  induction hr with
  | refl => exact .refl
  | tail _ hok hs ih => exact .tail ih (h _ _ hok) hs

/-- **The invariant rule.** What holds at the start and is preserved by every
allowed step taken in a reached state holds in every reached state. -/
theorem Reach.invariant {P : σ → Prop} (h0 : P s₀)
    (hstep : ∀ s l s', Reach step ok s₀ s → P s → ok s l → step s l = some s' → P s')
    (hr : Reach step ok s₀ s) : P s := by
  induction hr with
  | refl => exact h0
  | tail hr hok hs ih => exact hstep _ _ _ hr ih hok hs

/-- Run a list of labels as long as each step is allowed. -/
def execWhile (step : σ → α → Option σ) (ok : σ → α → Prop) [∀ s l, Decidable (ok s l)] :
    σ → List α → Option σ
  | s, [] => some s
  | s, l :: ls =>
      if ok s l then
        match step s l with
        | some s' => execWhile step ok s' ls
        | none => none
      else none

/-- A trace whose steps are all allowed reaches its last state. -/
theorem Reach.execWhile [∀ s l, Decidable (ok s l)] {ls : List α} (hr : Reach step ok s₀ s)
    (h : execWhile step ok s ls = some s') : Reach step ok s₀ s' := by
  induction ls generalizing s with
  | nil =>
      rw [Lts.execWhile] at h
      cases h
      exact hr
  | cons l ls ih =>
      rw [Lts.execWhile] at h
      split at h
      · rename_i hok
        split at h
        · rename_i s₁ hs
          exact ih (.tail hr hok hs) h
        · exact absurd h (by simp)
      · exact absurd h (by simp)

/-- The last state of an allowed trace, as a term. -/
theorem reach_getD [∀ s l, Decidable (ok s l)] {ls : List α}
    (h : (Lts.execWhile step ok s₀ ls).isSome = true) :
    Reach step ok s₀ ((Lts.execWhile step ok s₀ ls).getD s₀) := by
  obtain ⟨s', hs'⟩ := Option.isSome_iff_exists.mp h
  rw [hs', Option.getD_some]
  exact Reach.refl.execWhile hs'

theorem exec_of_execWhile [∀ s l, Decidable (ok s l)] {ls : List α}
    (h : execWhile step ok s ls = some s') : exec step s ls = some s' := by
  induction ls generalizing s with
  | nil => exact h
  | cons l ls ih =>
      rw [execWhile] at h
      obtain ⟨-, h⟩ := Option.ite_none_right_eq_some.mp h
      rw [exec]
      cases hs : step s l with
      | none =>
          rw [hs] at h
          cases h
      | some s₁ =>
          rw [hs] at h
          exact ih h

/-- The last state of an allowed trace, named without asking again what is allowed. -/
theorem reach_exec [∀ s l, Decidable (ok s l)] {ls : List α}
    (h : (Lts.execWhile step ok s₀ ls).isSome = true) :
    Reach step ok s₀ ((exec step s₀ ls).getD s₀) := by
  obtain ⟨s', hs'⟩ := Option.isSome_iff_exists.mp h
  rw [exec_of_execWhile hs', Option.getD_some]
  exact Reach.refl.execWhile hs'

/-- The last state of a trace, as a term. -/
theorem exec_getD {ls : List α} (h : (exec step s₀ ls).isSome = true) :
    exec step s₀ ls = some ((exec step s₀ ls).getD s₀) := by
  obtain ⟨s', hs'⟩ := Option.isSome_iff_exists.mp h
  rw [hs', Option.getD_some]

/-! ## Systems without a choice -/

section Deterministic

variable {next : σ → Option σ} {P Q : σ → Prop}

/-- The state after `k` steps; a state without a successor stays. -/
def iterate (next : σ → Option σ) : Nat → σ → σ
  | 0, s => s
  | k + 1, s =>
      match next s with
      | some s' => iterate next k s'
      | none => s

/-- The run from a state comes to `Q`. -/
inductive Leads (next : σ → Option σ) (Q : σ → Prop) : σ → Prop where
  | here {s : σ} (h : Q s) : Leads next Q s
  | step {s s' : σ} (hs : next s = some s') (h : Leads next Q s') : Leads next Q s

theorem Leads.trans (h : Leads next P s) (hPQ : ∀ s, P s → Leads next Q s) : Leads next Q s := by
  induction h with
  | here h => exact hPQ _ h
  | step hs _ ih => exact .step hs ih

theorem Leads.mono (h : Leads next P s) (hPQ : ∀ s, P s → Q s) : Leads next Q s :=
  h.trans (fun s hs => .here (hPQ s hs))

theorem Leads.iterate (h : Leads next Q s) : ∃ k, Q (iterate next k s) := by
  induction h with
  | here h => exact ⟨0, h⟩
  | step hs _ ih =>
      obtain ⟨k, hk⟩ := ih
      refine ⟨k + 1, ?_⟩
      rw [Lts.iterate, hs]
      exact hk

theorem iterate_succ (k : Nat) (s : σ) :
    iterate next (k + 1) s = (next (iterate next k s)).getD (iterate next k s) := by
  induction k generalizing s with
  | zero =>
      rw [iterate, iterate]
      cases next s <;> rfl
  | succ k ih =>
      rw [iterate]
      cases hs : next s with
      | none => simp [iterate, hs]
      | some s' => simpa [iterate, hs] using ih s'

theorem iterate_next (h : next s = some s') (k : Nat) :
    iterate next (k + 1) s = iterate next k s' := by
  rw [iterate, h]

/-- A run goes on from where it has come to. -/
theorem iterate_add (m j : Nat) (s : σ) :
    iterate next (m + j) s = iterate next j (iterate next m s) := by
  induction j with
  | zero => rfl
  | succ j ih => rw [← Nat.add_assoc, iterate_succ, iterate_succ, ih]

/-- A run that has stopped has stopped for good. -/
theorem iterate_stopped {k m : Nat} (h : next (iterate next k s) = none) (hle : k ≤ m) :
    iterate next m s = iterate next k s := by
  induction hle with
  | refl => rfl
  | step _ ih => rw [iterate_succ, ih, h, Option.getD_none]

end Deterministic

end Lts
