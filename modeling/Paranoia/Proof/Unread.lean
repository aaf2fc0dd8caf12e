import Mathlib.Data.Finset.Max
import Mathlib.Order.Interval.Finset.Nat
import Paranoia.Proof.KeyOps

/-!
# What counts as unread

`count_new_for_user` first steps back from where the keys of the dialogue end, and only if there is a
packet above the position does it scan forward and count. What the two reads return is said of the
numbers whose keys are in the database: how many lie above the position, and which is the greatest.
-/

namespace Paranoia

namespace KeyStore

open StoreKey

variable {ν : Type} {ks : KeyStore ν} {id : DialogueId} {s floor : Nat}

local instance lawfulLiveKey : LawfulBEq (List Char) := inferInstance

/-- The numbers the dialogue has a packet of. -/
def liveSeqs (ks : KeyStore ν) (id : DialogueId) : Finset Nat :=
  (Finset.range u64Size).filter (fun s => makeKey id s ∈ ks.db.keys)

theorem mem_liveSeqs : s ∈ ks.liveSeqs id ↔ s < u64Size ∧ makeKey id s ∈ ks.db.keys := by
  rw [liveSeqs, Finset.mem_filter, Finset.mem_range]

theorem toFinset_live (ks : KeyStore ν) (id : DialogueId) :
    (ks.live id).toFinset = ks.liveSeqs id := by
  ext s
  rw [List.mem_toFinset, mem_live, mem_liveSeqs, and_comm]

/-- The numbers above the position, counted in the list and in the set. -/
theorem length_filter_live (ks : KeyStore ν) (id : DialogueId) (p : Nat → Prop) [DecidablePred p] :
    ((ks.live id).filter (fun s => p s)).length = ((ks.liveSeqs id).filter p).card := by
  have hnodup : ((ks.live id).filter (fun s => p s)).Nodup :=
    ((ks.live_sorted id).imp (fun h => Nat.ne_of_lt h)).filter _
  rw [← List.toFinset_card_of_nodup hnodup, List.toFinset_filter, toFinset_live]
  simp

/-- There are fewer numbers above a position than a `u64` can count. -/
theorem card_above_lt (ks : KeyStore ν) (id : DialogueId) (floor : Nat) :
    ((ks.liveSeqs id).filter (fun s => floor < s)).card ≤ u64Size - 1 := by
  have hsub : (ks.liveSeqs id).filter (fun s => floor < s) ⊆ Finset.Ioo 0 u64Size := by
    intro s hs
    obtain ⟨hlive, hlt⟩ := Finset.mem_filter.mp hs
    have hu := (mem_liveSeqs.mp hlive).1
    exact Finset.mem_Ioo.mpr ⟨by omega, hu⟩
  have hcard := Finset.card_le_card hsub
  rw [Nat.card_Ioo] at hcard
  omega

/-- **The step back finds the greatest number**, `0` if there is none. -/
theorem lastSeq_max (ks : KeyStore ν) (id : DialogueId) :
    ks.lastSeq id = .ok ((ks.liveSeqs id).max.unbotD 0) := by
  rw [lastSeq_eq, ← toFinset_live]
  cases hlast : (ks.live id).getLast? with
  | none =>
      rw [List.getLast?_eq_none_iff.mp hlast]
      rfl
  | some n =>
      have hmem : n ∈ (ks.live id).toFinset := List.mem_toFinset.mpr (List.mem_of_getLast? hlast)
      have hle : (ks.live id).toFinset.max ≤ WithBot.some n := by
        refine Finset.max_le (fun m hm => WithBot.coe_le_coe.mpr ?_)
        exact OrdMap.le_getLast? (ks.live_sorted id) hlast m (List.mem_toFinset.mp hm)
      have hmax : (ks.live id).toFinset.max = WithBot.some n :=
        le_antisymm hle (Finset.le_max hmem)
      rw [hmax]
      rfl

/-- No number is above a position that the greatest is not above. -/
theorem card_above_of_max_le (h : (ks.liveSeqs id).max.unbotD 0 ≤ floor) :
    ((ks.liveSeqs id).filter (fun s => floor < s)).card = 0 := by
  rw [Finset.card_eq_zero, Finset.filter_eq_empty_iff]
  intro s hs hlt
  obtain ⟨m, hm⟩ := Finset.max_of_mem hs
  have hle : WithBot.some s ≤ WithBot.some m := hm ▸ Finset.le_max hs
  rw [hm, WithBot.unbotD_coe] at h
  have := WithBot.coe_le_coe.mp hle
  omega

/-- The scan forward counts the numbers above the position, unless it is at the end of the `u64`. -/
theorem countAfter_above (hfloor : floor + 1 < u64Size) :
    ks.countAfter id floor = ((ks.liveSeqs id).filter (fun s => floor < s)).card := by
  have hsat : saturatingAdd floor 1 = floor + 1 := by
    unfold saturatingAdd
    omega
  rw [countAfter_eq, hsat, length_filter_live ks id (fun s => floor + 1 ≤ s)]
  exact Nat.min_eq_left (card_above_lt ks id floor)

/-- **What counts as new is what is above the position.** Whatever else the database holds, the count
is that of the dialogue's numbers above both positions, and the number found by the step back is the
greatest of the dialogue. -/
theorem countNewForUser_exact (codec : ReceiptCodec) (ks : KeyStore (List UInt8)) (id : DialogueId)
    (afterSeq : Nat) (username : String) :
    ks.countNewForUser codec id afterSeq username
      = (ks.receiptState codec username id).map (fun state =>
          ((ks.liveSeqs id).filter (fun s => afterSeq < s ∧ state.lastSeq < s)).card)
    ∧ ks.lastSeq id = .ok ((ks.liveSeqs id).max.unbotD 0) := by
  refine ⟨?_, lastSeq_max ks id⟩
  unfold countNewForUser
  cases hstate : ks.receiptState codec username id with
  | error e => rfl
  | ok state =>
      have habove : (ks.liveSeqs id).filter (fun s => afterSeq < s ∧ state.lastSeq < s)
          = (ks.liveSeqs id).filter (fun s => max afterSeq state.lastSeq < s) :=
        Finset.filter_congr (fun s _ => max_lt_iff.symm)
      dsimp only
      rw [lastSeq_max]
      dsimp only [Except.map]
      rw [habove]
      split
      · rename_i hle
        rw [card_above_of_max_le hle]
      · -- a number above the position keeps the position below the end of the `u64`
        rename_i hgt
        obtain ⟨m, hm⟩ : ∃ m : Nat, (ks.liveSeqs id).max = WithBot.some m := by
          cases hmax : (ks.liveSeqs id).max with
          | bot =>
              rw [hmax] at hgt
              exact absurd (Nat.zero_le _) hgt
          | coe m => exact ⟨m, rfl⟩
        have hu := (mem_liveSeqs.mp (Finset.mem_of_max hm)).1
        rw [hm, WithBot.unbotD_coe] at hgt
        rw [countAfter_above (by omega)]

end KeyStore

end Paranoia
