import Mathlib.Data.List.Nodup
import Paranoia.Server.NonceQueue

/-!
# Which nonces are refused

The set and the queue have the same nonces, and these are the last ones that were accepted. A nonce
is refused if it is one of them, or empty.
-/

namespace Paranoia

namespace Blob

namespace NonceGuard

variable {g : NonceGuard} {accepted : List String}

/-- The guard stands for the nonces that were accepted: it has the last of them, each once, in the
set and in the queue. -/
structure StandsFor (g : NonceGuard) (capacity : Nat) (accepted : List String) : Prop where
  cap : g.cap = capacity
  order : g.order = lastOf capacity accepted
  nodup : g.order.Nodup
  seen : g.seen = g.order.toFinset

theorem StandsFor.new (cap : Nat) : StandsFor (new cap) cap [] where
  cap := rfl
  order := List.drop_nil.symm
  nodup := List.nodup_nil
  seen := rfl

theorem makeRoom_order (cap : Nat) (seen : Finset String) (order : List String) :
    (makeRoom cap seen order).2 = order.drop (order.length + 1 - cap) := by
  induction order generalizing seen with
  | nil => rw [makeRoom, List.drop_nil]
  | cons old rest ih =>
      rw [makeRoom]
      split
      · rename_i hcap
        rw [ih, show (old :: rest).length + 1 - cap = rest.length + 1 - cap + 1 by
          rw [List.length_cons] at hcap ⊢; omega, List.drop_succ_cons]
      · rename_i hcap
        rw [show (old :: rest).length + 1 - cap = 0 by omega, List.drop_zero]

/-- What goes out of the queue goes out of the set. -/
theorem makeRoom_seen (cap : Nat) {order : List String} (h : order.Nodup) :
    (makeRoom cap order.toFinset order).1 = (makeRoom cap order.toFinset order).2.toFinset := by
  induction order with
  | nil => rfl
  | cons old rest ih =>
      have hold := (List.nodup_cons.mp h).1
      have herase : (old :: rest).toFinset.erase old = rest.toFinset := by
        rw [List.toFinset_cons, Finset.erase_insert (by rwa [List.mem_toFinset])]
      rw [makeRoom]
      split
      · rw [herase]
        exact ih (List.nodup_cons.mp h).2
      · rfl

/-- The last of a list with one more at its end. -/
theorem lastOf_concat {cap : Nat} (hcap : 0 < cap) (l : List String) (a : String) :
    lastOf cap (l ++ [a]) = (lastOf cap l).drop ((lastOf cap l).length + 1 - cap) ++ [a] := by
  unfold lastOf
  rw [List.drop_drop, List.length_drop, List.length_append, List.length_singleton,
    List.drop_append_of_le_length (by omega)]
  congr 2
  omega

theorem length_lastOf_le (n : Nat) (l : List String) : (lastOf n l).length ≤ n := by
  unfold lastOf
  rw [List.length_drop]
  omega

/-- **One nonce.** -/
theorem StandsFor.step {cap : Nat} (h : StandsFor g cap accepted) (hcap : 0 < cap)
    (nonce : String) :
    ((g.insertFresh nonce).2 = false ∧ (nonce = "" ∨ nonce ∈ lastOf cap accepted)
        ∧ StandsFor (g.insertFresh nonce).1 cap accepted)
    ∨ ((g.insertFresh nonce).2 = true ∧ ¬ (nonce = "" ∨ nonce ∈ lastOf cap accepted)
        ∧ StandsFor (g.insertFresh nonce).1 cap (accepted ++ [nonce])) := by
  have hseen : nonce ∈ g.seen ↔ nonce ∈ lastOf cap accepted := by
    rw [h.seen, List.mem_toFinset, h.order]
  unfold insertFresh
  by_cases hold : nonce = "" ∨ nonce ∈ g.seen
  · rw [if_pos (by simpa using hold)]
    exact .inl ⟨rfl, hold.imp_right hseen.mp, h⟩
  · rw [if_neg (by simpa using hold)]
    have hset := makeRoom_seen g.cap h.nodup
    rw [← h.seen] at hset
    have horder := makeRoom_order g.cap g.seen g.order
    have hfresh : nonce ∉ (makeRoom g.cap g.seen g.order).2 := by
      rw [horder]
      exact fun hmem => hold (.inr (hseen.mpr (h.order ▸ List.mem_of_mem_drop hmem)))
    refine .inr ⟨rfl, fun hor => hold (hor.imp_right hseen.mpr), h.cap, ?_, ?_, ?_⟩
    · rw [lastOf_concat hcap, ← h.order, ← h.cap, ← horder]
    · refine List.nodup_append.mpr ⟨?_, List.nodup_singleton _, fun a ha b hb => ?_⟩
      · rw [horder]
        exact h.nodup.sublist (List.drop_sublist _ _)
      · rintro rfl
        exact hfresh (List.mem_singleton.mp hb ▸ ha)
    · dsimp only
      rw [hset]
      ext a
      rw [Finset.mem_insert, List.mem_toFinset, List.mem_toFinset, List.mem_append,
        List.mem_singleton, or_comm]

theorem StandsFor.present {cap : Nat} (h : StandsFor g cap accepted) (hcap : 0 < cap)
    (nonces : List String) :
    StandsFor (g.present accepted nonces).1 cap (g.present accepted nonces).2 := by
  induction nonces generalizing g accepted with
  | nil => exact h
  | cons nonce rest ih =>
      rw [NonceGuard.present]
      rcases h.step hcap nonce with ⟨hno, -, hnext⟩ | ⟨hyes, -, hnext⟩
      · cases hstep : g.insertFresh nonce with
        | mk g' fresh =>
            rw [hstep] at hno hnext
            cases hno
            exact ih hnext
      · cases hstep : g.insertFresh nonce with
        | mk g' fresh =>
            rw [hstep] at hyes hnext
            cases hyes
            exact ih hnext

/-- **The two structures stay in step**, and a nonce is refused if it is empty or one of the last
that were accepted. -/
theorem refuses_iff (cap : Nat) (hcap : 1 ≤ cap) (nonces : List String) (nonce : String) :
    let (g, accepted) := (new cap).present [] nonces
    g.seen = g.order.toFinset ∧ g.order.Nodup ∧ g.order.length ≤ cap
      ∧ ((g.insertFresh nonce).2 = false ↔ nonce = "" ∨ nonce ∈ lastOf cap accepted) := by
  have h := (StandsFor.new cap).present hcap nonces
  refine ⟨h.seen, h.nodup, ?_, ?_⟩
  · rw [h.order]
    exact length_lastOf_le _ _
  · rcases h.step hcap nonce with ⟨hno, hold, -⟩ | ⟨hyes, hnew, -⟩
    · exact iff_of_true hno hold
    · exact iff_of_false (fun hno => Bool.false_ne_true (hno.symm.trans hyes)) hnew

theorem refuses_iff_three :
    let (g, accepted) := (new 2).present [] ["a", "b", "a", "c"]
    g.seen = g.order.toFinset ∧ g.order.Nodup ∧ g.order.length ≤ 2
      ∧ ((g.insertFresh "a").2 = false ↔ "a" = "" ∨ "a" ∈ lastOf 2 accepted) :=
  refuses_iff 2 (by decide) ["a", "b", "a", "c"] "a"

/-- A nonce without a character is refused though it was never accepted. -/
theorem empty_refused :
    ¬ ∀ (cap : Nat) (nonces : List String) (nonce : String), 1 ≤ cap →
      let (g, accepted) := (new cap).present [] nonces
      ((g.insertFresh nonce).2 = false ↔ nonce ∈ lastOf cap accepted) := by
  intro h
  exact absurd ((h 1 [] "" (by decide)).mp rfl) List.not_mem_nil

/-- The queue alone decides as both do. -/
theorem insertFresh_queue {cap : Nat} (h : StandsFor g cap accepted) (nonce : String) :
    g.queue.insertFresh nonce
      = ((g.insertFresh nonce).1.queue, (g.insertFresh nonce).2) := by
  have hmem : (nonce = "" || g.order.contains nonce) = (nonce = "" || decide (nonce ∈ g.seen)) := by
    rw [h.seen, List.contains_eq_mem]
    simp
  unfold insertFresh
  change (if (nonce = "" || g.order.contains nonce) = true then _ else _) = _
  by_cases hold : (nonce = "" || decide (nonce ∈ g.seen)) = true
  · rw [if_pos (hmem.trans hold), if_pos hold]
  · rw [if_neg (hmem ▸ hold), if_neg hold]
    dsimp only [queue]
    rw [makeRoom_order]

end NonceGuard

end Blob

end Paranoia
