import Mathlib.Algebra.Order.Ring.Int
import Mathlib.Logic.Basic

/-!
# Footprints

What an operation on a store reads and writes, as a set of keys: on stores that agree there it
gives one answer and the same contents there, and elsewhere it changes nothing. Operations within a
footprint cannot tell stores apart that differ elsewhere.
-/

namespace Footprint

universe u v w

variable {σ : Type u} {κ : Type v} {ν : Type w} {ε β : Type}

/-- The stores have the same under every key of the set. -/
def AgreeOn (read : σ → κ → ν) (K : κ → Prop) (s s' : σ) : Prop := ∀ k, K k → read s k = read s' k

/-- Whatever is not in the set is as it was. -/
def FrameOf (read : σ → κ → ν) (K : κ → Prop) (s s' : σ) : Prop := ∀ k, ¬ K k → read s' k = read s k

/-- An operation that answers. -/
structure Within (read : σ → κ → ν) (K : κ → Prop) (f : σ → σ × β) : Prop where
  answer : ∀ s s', AgreeOn read K s s' → (f s).2 = (f s').2
  agree : ∀ s s', AgreeOn read K s s' → AgreeOn read K (f s).1 (f s').1
  frame : ∀ s, FrameOf read K s (f s).1

/-- A change that may fail. -/
def WritesWithin (read : σ → κ → ν) (K : κ → Prop) (f : σ → Except ε σ) : Prop :=
  ∀ s s', AgreeOn read K s s' → (∃ e, f s = .error e ∧ f s' = .error e) ∨
    ∃ t t', f s = .ok t ∧ f s' = .ok t' ∧ AgreeOn read K t t' ∧ FrameOf read K s t

variable {read : σ → κ → ν} {K K' : κ → Prop} {s t u : σ}

theorem AgreeOn.refl (s : σ) : AgreeOn read K s s := fun _ _ => rfl

theorem FrameOf.refl (s : σ) : FrameOf read K s s := fun _ _ => rfl

theorem FrameOf.trans (h : FrameOf read K s t) (h' : FrameOf read K t u) : FrameOf read K s u :=
  fun k hk => (h' k hk).trans (h k hk)

/-- On stores that agree the change fails in one way, or succeeds on both. -/
theorem WritesWithin.outcome {f : σ → Except ε σ} (hf : WritesWithin read K f) {s s' : σ}
    (ha : AgreeOn read K s s') : (∃ e, f s = .error e ∧ f s' = .error e) ∨
      ∃ t t', f s = .ok t ∧ f s' = .ok t' ∧ AgreeOn read K t t' ∧ FrameOf read K s t :=
  hf s s' ha

/-- What only looks at the store. -/
theorem within_answer {g : σ → β} (h : ∀ s s', AgreeOn read K s s' → g s = g s') :
    Within read K (fun s => (s, g s)) :=
  ⟨h, fun _ _ ha => ha, FrameOf.refl⟩

/-- **A footprint may be enlarged.** -/
theorem Within.mono {f : σ → σ × β} (hf : Within read K f) (h : ∀ k, K k → K' k) :
    Within read K' f where
  answer s s' ha := hf.answer s s' (fun k hk => ha k (h k hk))
  agree s s' ha k hk := by
    by_cases hK : K k
    · exact hf.agree s s' (fun k hk => ha k (h k hk)) k hK
    · rw [hf.frame s k hK, hf.frame s' k hK]
      exact ha k hk
  frame s k hk := hf.frame s k (fun hK => hk (h k hK))

end Footprint
