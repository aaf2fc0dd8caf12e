import Paranoia.Proof.KeyOps
import Paranoia.Server.Ranges

/-!
# Ranges are exact

A scan that comes to its end has met what it would have met without faults, and the batch is written
as a whole, so a range is read and deleted exactly or an error is answered and nothing has changed.
One number is out of reach of a deletion: the scan starts at `1` where it is to start at the
beginning, and a packet may have the number `0`.
-/

namespace Paranoia

/-! ## Iterators -/

namespace DbFaults

variable {α : Type}

theorem iterate_nil (faults : DbFaults) :
    faults.iterate ([] : List α) = [] ∨ ∃ e, faults.iterate ([] : List α) = [.error e] := by
  cases hread : faults.read with
  | none => exact .inl (by simp [iterate, hread])
  | some n => exact .inr ⟨_, by simp [iterate, hread]; rfl⟩

/-- The iterator fails at once, or yields the first entry and goes on. -/
theorem iterate_cons (faults : DbFaults) (entry : α) (entries : List α) :
    (∃ e, faults.iterate (entry :: entries) = [.error e])
    ∨ ∃ faults' : DbFaults, faults.iterate (entry :: entries) = .ok entry :: faults'.iterate entries := by
  cases hread : faults.read with
  | none => exact .inr ⟨faults, by simp [iterate, hread]⟩
  | some n =>
      cases n with
      | zero => exact .inl ⟨_, by simp [iterate, hread]; rfl⟩
      | succ n => exact .inr ⟨⟨some n, faults.write⟩, by simp [iterate, hread]⟩

theorem iterate_none (entries : List α) : DbFaults.none.iterate entries = entries.map .ok := rfl

end DbFaults

/-- What follows a result follows the same result of another computation. -/
theorem map_ok_of_ok {ε α β : Type} {x y : Except ε α} {f : α → β} {b : β}
    (hxy : ∀ a, x = .ok a → y = .ok a) (h : x.map f = .ok b) : y.map f = .ok b := by
  cases x with
  | error e => cases h
  | ok a => rwa [hxy a rfl]

namespace KeyStore

open StoreKey

variable {ν : Type} {ks : KeyStore ν} {id : DialogueId} {faults : DbFaults} {t : List Char}
  {toSeq fromSeq afterSeq : Nat}

/-! ## Reading -/

/-- A scan that comes to its end has met no fault. -/
theorem pullItems_ok {packets : List (RawPacket ν)} {entries : List (List Char × ν)}
    (h : pullItems t toSeq (faults.iterate entries) = .ok packets) :
    pullEntries t toSeq entries = .ok packets := by
  induction entries generalizing packets faults with
  | nil =>
      rcases faults.iterate_nil (α := List Char × ν) with heq | ⟨e, heq⟩
      · rw [heq] at h
        exact h
      · rw [heq] at h
        cases h
  | cons entry entries ih =>
      rcases faults.iterate_cons entry entries with ⟨e, heq⟩ | ⟨faults', heq⟩
      · rw [heq] at h
        cases h
      · rw [heq, pullItems] at h
        rw [pullEntries]
        by_cases hpre : t ++ [':'] <+: entry.1
        · rw [if_neg (not_not.mpr hpre)] at h ⊢
          cases hseq : parseSeq entry.1 t with
          | error e =>
              rw [hseq] at h
              cases h
          | ok seq =>
              rw [hseq] at h
              dsimp only at h ⊢
              by_cases hto : toSeq < seq
              · rwa [if_pos hto] at h ⊢
              · rw [if_neg hto] at h ⊢
                exact map_ok_of_ok (fun _ hrest => ih hrest) h
        · rwa [if_pos hpre] at h ⊢

theorem pullItems_map (entries : List (List Char × ν)) :
    pullItems t toSeq (entries.map .ok) = pullEntries t toSeq entries := by
  induction entries with
  | nil => rfl
  | cons entry entries ih =>
      rw [List.map_cons, pullItems, pullEntries]
      generalize pullItems t toSeq (entries.map .ok) = items at ih ⊢
      subst ih
      rfl

theorem pullWith_none (ks : KeyStore ν) (id : DialogueId) (afterSeq toSeq : Nat) :
    ks.pullWith .none id afterSeq toSeq = ks.pull id afterSeq toSeq := by
  unfold pullWith pull
  cases checkedAdd afterSeq 1 with
  | none => rfl
  | some startSeq =>
      dsimp only
      rw [DbFaults.iterate_none, pullItems_map]

theorem pullWith_ok {packets : List (RawPacket ν)}
    (h : ks.pullWith faults id afterSeq toSeq = .ok packets) :
    ks.pull id afterSeq toSeq = .ok packets := by
  unfold pullWith at h
  unfold pull
  split at h
  · cases h
  · rename_i hrange
    rw [if_neg hrange]
    cases hstart : checkedAdd afterSeq 1 with
    | none =>
        rw [hstart] at h
        exact h
    | some startSeq =>
        rw [hstart] at h
        exact pullItems_ok h

/-- The packets of a range of the keys. -/
theorem pull_exact {packets : List (RawPacket ν)} (hto : toSeq < u64Size)
    (h : ks.pull id afterSeq toSeq = .ok packets) :
    ks.PulledExactly id afterSeq toSeq packets := by
  have hdialogue : DialogueKey := DialogueKey.new "" ""
  rw [pull_eq (fun _ => id) ks hdialogue] at h
  refine ⟨PacketStore.pull_sorted h, fun pkt => ?_⟩
  rw [PacketStore.mem_pull h hto, packets_get]

/-! ## Deleting -/

theorem batchItems_ok {batch keys : List (List Char)}
    (h : batchItems t toSeq (faults.iterate keys) = .ok batch) :
    batchKeys t toSeq keys = .ok batch := by
  induction keys generalizing batch faults with
  | nil =>
      rcases faults.iterate_nil (α := List Char) with heq | ⟨e, heq⟩
      · rw [heq] at h
        exact h
      · rw [heq] at h
        cases h
  | cons key keys ih =>
      rcases faults.iterate_cons key keys with ⟨e, heq⟩ | ⟨faults', heq⟩
      · rw [heq] at h
        cases h
      · rw [heq, batchItems] at h
        rw [batchKeys]
        by_cases hpre : t ++ [':'] <+: key
        · rw [if_neg (not_not.mpr hpre)] at h ⊢
          cases hseq : parseSeq key t with
          | error e =>
              rw [hseq] at h
              cases h
          | ok seq =>
              rw [hseq] at h
              dsimp only at h ⊢
              by_cases hto : toSeq < seq
              · rwa [if_pos hto] at h ⊢
              · rw [if_neg hto] at h ⊢
                exact map_ok_of_ok (fun _ hrest => ih hrest) h
        · rwa [if_pos hpre] at h ⊢

theorem batchItems_map (keys : List (List Char)) :
    batchItems t toSeq (keys.map .ok) = batchKeys t toSeq keys := by
  induction keys with
  | nil => rfl
  | cons key keys ih =>
      rw [List.map_cons, batchItems, batchKeys]
      generalize batchItems t toSeq (keys.map .ok) = items at ih ⊢
      subst ih
      rfl

/-- What a deletion answers and leaves: an error and the store as it was, or the store without the
batch over the range. -/
theorem removeRangeWith_cases (faults : DbFaults) (ks : KeyStore ν) (id : DialogueId)
    (fromSeq toSeq : Nat) :
    (∃ e, ks.removeRangeWith faults id fromSeq toSeq = (.error e, ks))
    ∨ ∃ ks', ks.removeRange id fromSeq toSeq = .ok ks'
      ∧ ks.removeRangeWith faults id fromSeq toSeq = (.ok (), ks') := by
  unfold removeRangeWith
  by_cases hrange : toSeq < fromSeq ∧ fromSeq ≠ 0
  · exact .inl ⟨_, if_pos hrange⟩
  · rw [if_neg hrange]
    cases hbatch : batchItems id.text toSeq (faults.iterate
        (ks.db.keys.filter (fun k => makeKey id (max fromSeq 1) ≤ k))) with
    | error e => exact .inl ⟨e, rfl⟩
    | ok batch =>
        dsimp only
        by_cases hwrite : faults.write = true
        · exact .inl ⟨_, if_pos hwrite⟩
        · refine .inr ⟨ks.deleteBatch batch, ?_, if_neg hwrite⟩
          rw [removeRange, rangeBatch, if_neg hrange, batchItems_ok hbatch]
          rfl

/-- Without faults a deletion of a range succeeds. -/
theorem removeRangeWith_none {ks' : KeyStore ν} (h : ks.removeRange id fromSeq toSeq = .ok ks') :
    ks.removeRangeWith .none id fromSeq toSeq = (.ok (), ks') := by
  unfold removeRange rangeBatch at h
  unfold removeRangeWith
  by_cases hrange : toSeq < fromSeq ∧ fromSeq ≠ 0
  · rw [if_pos hrange] at h
    cases h
  · rw [if_neg hrange] at h ⊢
    rw [DbFaults.iterate_none, batchItems_map]
    cases hbatch : batchKeys id.text toSeq
        (ks.db.keys.filter (fun k => makeKey id (max fromSeq 1) ≤ k)) with
    | error e =>
        rw [hbatch] at h
        cases h
    | ok batch =>
        rw [hbatch] at h
        cases h
        rfl

/-- A packet `0` stays where it is. -/
theorem zero_stays (h : makeKey id 0 ∈ ks.db.keys) :
    ¬ ks.RemovedExactly id 0 toSeq (ks.removeRangeWith .none id 0 toSeq) := by
  intro hexact
  obtain ⟨ks', hremove, -, hkept⟩ := removeRange_eq ks id (by decide : 0 < u64Size)
    (show ¬ (toSeq < 0 ∧ (0 : Nat) ≠ 0) by omega)
  rw [removeRangeWith_none hremove] at hexact
  have hgone := hexact.gone rfl 0 (Nat.le_refl 0) (Nat.zero_le _)
  dsimp only at hgone
  rw [hkept (makeKey id 0) (fun n hn _ heq => by
    have := (makeKey_inj.mp heq).2
    omega)] at hgone
  exact OrdMap.get?_eq_none.mp hgone h

/-- **Ranges of packets are exact.** A pull that is answered has the packets of its range, and without
faults one is answered; a deletion removes the packets of its range and no other key, or answers an
error and changes nothing, exactly if it is not to start at the beginning of a dialogue with a packet
`0`. -/
theorem ranges_exact (ks : KeyStore ν) (id : DialogueId) :
    (∀ afterSeq toSeq, toSeq < u64Size →
      (∀ faults packets, ks.pullWith faults id afterSeq toSeq = .ok packets →
        ks.PulledExactly id afterSeq toSeq packets)
      ∧ (afterSeq < toSeq → ∃ packets, ks.pullWith .none id afterSeq toSeq = .ok packets))
    ∧ ∀ fromSeq toSeq, fromSeq ≤ toSeq → toSeq < u64Size →
      (ks.removeRangeWith .none id fromSeq toSeq).1 = .ok ()
      ∧ ((∀ faults, ks.RemovedExactly id fromSeq toSeq
          (ks.removeRangeWith faults id fromSeq toSeq))
        ↔ (fromSeq = 0 → makeKey id 0 ∉ ks.db.keys)) := by
  refine ⟨fun afterSeq toSeq hto => ⟨fun faults packets h => ?_, fun hlt => ?_⟩,
    fun fromSeq toSeq hle hto => ?_⟩
  · exact pull_exact hto (pullWith_ok h)
  · have hstart : checkedAdd afterSeq 1 = some (afterSeq + 1) :=
      checkedAdd_eq_some.mpr ⟨rfl, by omega⟩
    have hrange : ¬ (decide (toSeq = 0) || decide (toSeq ≤ afterSeq)) = true := by
      simp
      omega
    rw [pullWith_none, pull_eq (fun _ => id) ks (DialogueKey.new "" ""), PacketStore.pull,
      if_neg hrange, hstart]
    exact ⟨_, rfl⟩
  · have hfrom : fromSeq < u64Size := Nat.lt_of_le_of_lt hle hto
    obtain ⟨ks', hremove, hgone, hkept⟩ := removeRange_eq ks id hfrom
      (show ¬ (toSeq < fromSeq ∧ fromSeq ≠ 0) by omega)
    have hnone := removeRangeWith_none hremove
    refine ⟨by rw [hnone], fun h hzero => ?_, fun h faults => ?_⟩
    · subst hzero
      exact fun hmem => zero_stays hmem (h .none)
    · rcases removeRangeWith_cases faults ks id fromSeq toSeq with ⟨e, herror⟩ | ⟨ks₁, hks₁, hok⟩
      · rw [herror]
        exact ⟨fun hyes => (by cases hyes), fun hyes => (by cases hyes), fun _ _ => rfl⟩
      · rw [hremove] at hks₁
        cases hks₁
        rw [hok]
        refine ⟨fun _ n hn hn' => ?_, fun _ k hk => ?_, fun e he => (by cases he)⟩
        · by_cases hn1 : max fromSeq 1 ≤ n
          · exact hgone n hn1 hn'
          -- the batch begins at `1`, so a packet `0` is gone only if there was none
          · have hn0 : n = 0 := by omega
            subst hn0
            rw [show ({ fst := Except.ok (), snd := ks' } :
              Except String Unit × KeyStore ν).2 = ks' from rfl,
              hkept (makeKey id 0) (fun m hm _ heq => by
                have := (makeKey_inj.mp heq).2
                omega)]
            exact OrdMap.get?_eq_none.mpr (h (by omega))
        · exact hkept k (fun n hn hn' => hk n (by omega) hn')

/-- The dialogue whose hash is nothing but zeros. -/
def zeroId : DialogueId := ⟨List.replicate 64 '0', length_zeros, hex_zeros⟩

/-- A packet is pushed under the number `0`, and deleting the dialogue from the beginning leaves it. -/
theorem zero_pushed : ∃ ks : KeyStore (List UInt8),
    KeyStore.empty.push zeroId 0 (by decide) [1] = .ok ks
      ∧ ¬ ∀ faults, ks.RemovedExactly zeroId 0 5 (ks.removeRangeWith faults zeroId 0 5) := by
  refine ⟨KeyStore.empty.put (.packet zeroId 0) (by decide) [1], rfl, fun h => ?_⟩
  refine zero_stays ?_ (h .none)
  exact OrdMap.mem_keys_put.mpr (.inl rfl)

/-- A dialogue with the packet `3`. -/
def threeStore : KeyStore (List UInt8) := KeyStore.empty.put (.packet zeroId 3) (by decide) [1]

theorem ranges_exact_threeStore :
    (∃ packets, threeStore.pullWith .none zeroId 0 5 = .ok packets)
    ∧ ∀ faults, threeStore.RemovedExactly zeroId 1 5 (threeStore.removeRangeWith faults zeroId 1 5) :=
  ⟨((ranges_exact threeStore zeroId).1 0 5 (by decide)).2 (by decide),
    ((ranges_exact threeStore zeroId).2 1 5 (by decide) (by decide)).2.mpr (by simp)⟩

end KeyStore

end Paranoia
