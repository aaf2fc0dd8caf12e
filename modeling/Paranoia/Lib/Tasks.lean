import Mathlib.Algebra.Order.Ring.Int
import Mathlib.Data.List.Basic

/-!
# Tasks, each at its index

A list of tasks in which one at a time moves on: what is at the other indices stays.
-/

namespace Tasks

universe u

variable {α : Type u} {l : List α} {i j : Nat} {a b c : α}

theorem mem_set_self (ha : l[i]? = some a) (b : α) : b ∈ l.set i b :=
  List.mem_set (List.getElem?_eq_some_iff.mp ha).1 b

theorem get_set_self (ha : l[i]? = some a) (b : α) : (l.set i b)[i]? = some b :=
  List.getElem?_set_self (List.getElem?_eq_some_iff.mp ha).1

/-- What was in the list is the one that has moved, or still there. -/
theorem eq_or_mem_set (ha : l[i]? = some a) (hc : c ∈ l) : c = a ∨ c ∈ l.set i b := by
  obtain ⟨j, hj⟩ := List.mem_iff_getElem?.mp hc
  by_cases hij : i = j
  · subst hij
    rw [ha] at hj
    exact .inl (Option.some.inj hj).symm
  · refine .inr (List.mem_of_getElem? (i := j) ?_)
    rw [List.getElem?_set_ne hij, hj]

theorem get_set (ha : l[i]? = some a) (hc : (l.set i b)[j]? = some c) :
    j = i ∧ c = b ∨ j ≠ i ∧ l[j]? = some c := by
  by_cases hij : i = j
  · subst hij
    rw [get_set_self ha] at hc
    exact .inl ⟨rfl, (Option.some.inj hc).symm⟩
  · rw [List.getElem?_set_ne hij] at hc
    exact .inr ⟨Ne.symm hij, hc⟩

theorem get_append (hc : (l ++ [a])[j]? = some c) : l[j]? = some c ∨ j = l.length ∧ c = a := by
  rw [List.getElem?_append] at hc
  split at hc
  · exact .inl hc
  · rename_i hlt
    obtain ⟨hj, hc⟩ := List.getElem?_eq_some_iff.mp hc
    rw [List.length_singleton] at hj
    rw [List.getElem_singleton] at hc
    exact .inr ⟨by omega, hc.symm⟩

theorem get_append_left (hc : l[j]? = some c) (a : α) : (l ++ [a])[j]? = some c := by
  rw [List.getElem?_append_left (List.getElem?_eq_some_iff.mp hc).1, hc]

/-- What was in the list is still there, unless it was the one that was changed. -/
theorem mem_modify {f : α → α} (ha : a ∈ l.modify i f) : a ∈ l ∨ ∃ c ∈ l, a = f c := by
  rw [List.modify_eq_set_getElem?] at ha
  cases hi : l[i]? with
  | none =>
      rw [hi] at ha
      exact .inl ha
  | some c =>
      rw [hi] at ha
      rcases List.mem_or_eq_of_mem_set ha with ha | rfl
      · exact .inl ha
      · exact .inr ⟨c, List.mem_of_getElem? hi, rfl⟩

end Tasks
