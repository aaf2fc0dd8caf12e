import Paranoia.Client.MessageDeletion

/-!
# What a deletion of messages deletes

Joining ranges keeps the numbers they have, also where the numbers wrap around, so what is asked for
is what the selected messages say of themselves. A range that succeeds takes its numbers from the
server and the delivered messages at them from the database; one that fails takes at most the former.
-/

namespace Paranoia

/-! ## Ranges -/

namespace SeqRange

variable {s : Nat}

theorem mergeFrom_has {rest : List SeqRange} {last : SeqRange}
    (hsorted : (last :: rest).Pairwise fun a b => a.fromSeq ≤ b.fromSeq) :
    (∃ r ∈ mergeFrom last rest, r.Has s) ↔ ∃ r ∈ last :: rest, r.Has s := by
  induction rest generalizing last with
  | nil => rfl
  | cons cur rest ih =>
      obtain ⟨hfirst, htail⟩ := List.pairwise_cons.mp hsorted
      have hle : last.fromSeq ≤ cur.fromSeq := hfirst cur List.mem_cons_self
      rw [mergeFrom]
      split
      · rename_i hjoin
        have hjoin : cur.fromSeq ≤ last.toSeq + 1 := hjoin.trans (Nat.mod_le _ _)
        have hone : (⟨last.fromSeq, max last.toSeq cur.toSeq⟩ : SeqRange).Has s
            ↔ last.Has s ∨ cur.Has s := by
          simp only [Has]
          omega
        have hjoined : (⟨last.fromSeq, max last.toSeq cur.toSeq⟩ :: rest).Pairwise
            fun a b : SeqRange => a.fromSeq ≤ b.fromSeq :=
          List.pairwise_cons.mpr
            ⟨fun r hr => hfirst r (List.mem_cons_of_mem _ hr), (List.pairwise_cons.mp htail).2⟩
        refine (ih hjoined).trans ?_
        simp only [List.exists_mem_cons_iff, hone, or_assoc]
      · simp only [List.exists_mem_cons_iff, ih htail]

theorem mergeRanges_has {ranges : List SeqRange} :
    (∃ r ∈ mergeRanges ranges, r.Has s) ↔ ∃ r ∈ ranges, r.Has s := by
  have hperm := ranges.perm_insertionSort fun a b : SeqRange => a.fromSeq ≤ b.fromSeq
  have hsorted := ranges.pairwise_insertionSort fun a b : SeqRange => a.fromSeq ≤ b.fromSeq
  rw [mergeRanges]
  cases hsort : ranges.insertionSort fun a b : SeqRange => a.fromSeq ≤ b.fromSeq with
  | nil =>
      rw [hsort] at hperm
      rw [List.nil_perm.mp hperm]
  | cons first rest =>
      rw [hsort] at hperm hsorted
      rw [mergeFrom_has hsorted]
      exact exists_congr fun r => and_congr_left fun _ => hperm.mem_iff

/-- It begins behind `0` and is not empty. -/
def Proper (r : SeqRange) : Prop := 0 < r.fromSeq ∧ r.fromSeq ≤ r.toSeq

theorem mergeFrom_proper {rest : List SeqRange} {last : SeqRange}
    (h : ∀ r ∈ last :: rest, r.Proper) : ∀ r ∈ mergeFrom last rest, r.Proper := by
  induction rest generalizing last with
  | nil => exact h
  | cons cur rest ih =>
      have hlast := h last List.mem_cons_self
      rw [mergeFrom]
      split
      · refine ih (List.forall_mem_cons.mpr ⟨⟨hlast.1, hlast.2.trans (le_max_left _ _)⟩, ?_⟩)
        exact fun r hr => h r (List.mem_cons_of_mem _ (List.mem_cons_of_mem _ hr))
      · exact List.forall_mem_cons.mpr ⟨hlast, ih fun r hr => h r (List.mem_cons_of_mem _ hr)⟩

theorem mergeRanges_proper {ranges : List SeqRange} (h : ∀ r ∈ ranges, r.Proper) :
    ∀ r ∈ mergeRanges ranges, r.Proper := by
  have hperm := ranges.perm_insertionSort fun a b : SeqRange => a.fromSeq ≤ b.fromSeq
  rw [mergeRanges]
  cases hsort : ranges.insertionSort fun a b : SeqRange => a.fromSeq ≤ b.fromSeq with
  | nil => exact fun r hr => absurd hr List.not_mem_nil
  | cons first rest => exact mergeFrom_proper fun r hr => h r (hperm.mem_iff.mp (hsort ▸ hr))

end SeqRange

namespace CachedMessage

variable {m : CachedMessage} {s : Nat}

theorem ranges_proper : ∀ r ∈ m.ranges, r.Proper := by
  intro r hr
  rw [ranges] at hr
  split at hr
  · cases hr
  · rename_i hseq
    rcases List.mem_cons.mp hr with rfl | hr
    · exact ⟨Nat.pos_of_ne_zero hseq, le_rfl⟩
    · split at hr
      · rename_i hbody
        obtain rfl := List.mem_singleton.mp hr
        exact hbody
      · cases hr

theorem ranges_has : (∃ r ∈ m.ranges, r.Has s) ↔ m.seq ≠ 0 ∧ (s = m.seq ∨ m.Claims s) := by
  rw [ranges]
  split
  · simp [*]
  · rename_i hseq
    rw [List.exists_mem_cons_iff]
    refine ⟨?_, fun ⟨_, h⟩ => h.imp (fun heq => ⟨heq.ge, heq.le⟩) fun h => ?_⟩
    · rintro (⟨hle, hge⟩ | ⟨r, hr, hhas⟩)
      · exact ⟨hseq, .inl (le_antisymm hge hle)⟩
      · split at hr
        · rename_i hbody
          obtain rfl := List.mem_singleton.mp hr
          exact ⟨hseq, .inr ⟨hbody.1, hhas⟩⟩
        · cases hr
    · rw [if_pos ⟨h.1, h.2.1.trans h.2.2⟩]
      exact ⟨_, List.mem_singleton_self _, h.2⟩

end CachedMessage

namespace DialogueView

variable {key : DialogueKey} {owner : Nat → Option String} {v : DialogueView} {r : SeqRange}
  {messageIds : List String} {outcome : Nat → RangeOutcome} {rs : List (SeqRange × RangeOutcome)}
  {s : Nat}

theorem selectedRanges_proper : ∀ r ∈ v.selectedRanges messageIds, r.Proper := by
  refine SeqRange.mergeRanges_proper fun r hr => ?_
  obtain ⟨m, -, hr⟩ := List.mem_flatMap.mp hr
  exact CachedMessage.ranges_proper r hr

/-- What is asked for is what the selected messages say of themselves. -/
theorem asked_iff : (∃ r ∈ v.selectedRanges messageIds, r.Has s) ↔
    ∃ m ∈ v.cache, m.id ∈ messageIds ∧ m.seq ≠ 0 ∧ (s = m.seq ∨ m.Claims s) := by
  rw [selectedRanges, SeqRange.mergeRanges_has]
  constructor
  · rintro ⟨r, hr, hhas⟩
    obtain ⟨m, hm, hr⟩ := List.mem_flatMap.mp hr
    obtain ⟨hm, hid⟩ := List.mem_filter.mp hm
    exact ⟨m, hm, of_decide_eq_true hid, CachedMessage.ranges_has.mp ⟨r, hr, hhas⟩⟩
  · rintro ⟨m, hm, hid, h⟩
    obtain ⟨r, hr, hhas⟩ := CachedMessage.ranges_has.mpr h
    exact ⟨r, List.mem_flatMap.mpr ⟨m, List.mem_filter.mpr ⟨hm, decide_eq_true hid⟩, hr⟩, hhas⟩

/-! ## One range -/

theorem mem_removeServerRange : s ∈ (v.removeServerRange r).server ↔
    s ∈ v.server ∧ ¬ (max r.fromSeq 1 ≤ s ∧ s ≤ r.toSeq) := by
  rw [removeServerRange, List.mem_filter, decide_eq_true_eq]

/-- A proper range takes the delivered messages at its numbers. -/
theorem mem_deleteLocalRange (hr : r.Proper) {row : Message} :
    row ∈ (v.deleteLocalRange key r).store.messages ↔ row ∈ v.store.messages
      ∧ ¬ (row.dialogue = key ∧ ∃ s, row.serverSeq = some s
        ∧ s ∈ v.store.getDeliveredServerSeqs key ∧ r.Has s) := by
  rw [deleteLocalRange, if_neg (by have := hr.1; have := hr.2; omega),
    LocalStore.mem_deleteMessagesBySeqs]
  refine and_congr_right fun _ => not_congr (and_congr_right fun _ => ?_)
  have hmax : max r.fromSeq 1 = r.fromSeq := max_eq_left hr.1
  simp only [List.mem_filter, hmax, decide_eq_true_eq, SeqRange.Has]
  exact ⟨fun ⟨s, ⟨hd, hs⟩, heq⟩ => ⟨s, heq, hd, hs⟩, fun ⟨s, heq, hd, hs⟩ => ⟨s, ⟨hd, hs⟩, heq⟩⟩

@[simp] theorem deleteLocalRange_server : (v.deleteLocalRange key r).server = v.server := by
  unfold deleteLocalRange
  split <;> rfl

@[simp] theorem deleteLocalRange_cache : (v.deleteLocalRange key r).cache = v.cache := by
  unfold deleteLocalRange
  split <;> rfl

/-- What the call for a proper range can do. -/
theorem deleteDialogueRange_cases (key : DialogueKey) (v : DialogueView) (hr : r.Proper)
    (o : RangeOutcome) :
    (o = .deleted ∧ v.deleteDialogueRange key r o
        = ((v.removeServerRange r).deleteLocalRange key r, true))
    ∨ (o ≠ .deleted ∧ ∃ v', v.deleteDialogueRange key r o = (v', false)
        ∧ (v' = v ∨ v' = v.removeServerRange r)) := by
  have hto : r.toSeq ≠ 0 := by
    have := hr.1
    have := hr.2
    omega
  unfold deleteDialogueRange
  rw [if_neg hto]
  cases o with
  | refused => exact .inr ⟨by simp, _, rfl, .inl rfl⟩
  | unanswered => exact .inr ⟨by simp, _, rfl, .inr rfl⟩
  | localFailed => exact .inr ⟨by simp, _, rfl, .inr rfl⟩
  | deleted => exact .inl ⟨rfl, rfl⟩

theorem deleteDialogueRange_store (hr : r.Proper) (o : RangeOutcome) {row : Message} :
    row ∈ (v.deleteDialogueRange key r o).1.store.messages ↔ row ∈ v.store.messages
      ∧ ¬ (o = .deleted ∧ row.dialogue = key ∧ ∃ s, row.serverSeq = some s
        ∧ s ∈ v.store.getDeliveredServerSeqs key ∧ r.Has s) := by
  rcases deleteDialogueRange_cases key v hr o with ⟨rfl, h⟩ | ⟨ho, v', h, rfl | rfl⟩
  · rw [h]
    exact (mem_deleteLocalRange hr).trans (and_congr_right fun _ => by simp [removeServerRange])
  · rw [h]
    simp [ho]
  · rw [h]
    simp [ho, removeServerRange]

theorem deleteDialogueRange_cache (hr : r.Proper) (o : RangeOutcome) :
    (v.deleteDialogueRange key r o).1.cache = v.cache := by
  rcases deleteDialogueRange_cases key v hr o with ⟨rfl, h⟩ | ⟨ho, v', h, rfl | rfl⟩
  · rw [h, deleteLocalRange_cache]
    rfl
  · rw [h]
  · rw [h]
    rfl

theorem deleteDialogueRange_server (hr : r.Proper) (o : RangeOutcome) (hs : s ∈ v.server)
    (hout : ¬ r.Has s) : s ∈ (v.deleteDialogueRange key r o).1.server := by
  have hstays : s ∈ (v.removeServerRange r).server :=
    mem_removeServerRange.mpr ⟨hs, fun h => hout ⟨(le_max_left _ _).trans h.1, h.2⟩⟩
  rcases deleteDialogueRange_cases key v hr o with ⟨rfl, h⟩ | ⟨ho, v', h, rfl | rfl⟩
  · rw [h, deleteLocalRange_server]
    exact hstays
  · rw [h]
    exact hs
  · rw [h]
    exact hstays

theorem deleteDialogueRange_ok (key : DialogueKey) (v : DialogueView) (hr : r.Proper)
    (o : RangeOutcome) :
    (v.deleteDialogueRange key r o).2 = true ↔ o = .deleted := by
  rcases deleteDialogueRange_cases key v hr o with ⟨rfl, h⟩ | ⟨ho, v', h, -⟩
  · simp [h]
  · simp [h, ho]

/-- A number counts as delivered after a range as long as its rows are there. -/
theorem deleteDialogueRange_delivered (hr : r.Proper) (o : RangeOutcome) :
    s ∈ (v.deleteDialogueRange key r o).1.store.getDeliveredServerSeqs key ↔
      s ∈ v.store.getDeliveredServerSeqs key ∧ ¬ (o = .deleted ∧ r.Has s) := by
  simp only [LocalStore.mem_getDeliveredServerSeqs, deleteDialogueRange_store hr]
  constructor
  · rintro ⟨row, ⟨hrow, hkept⟩, hkey, hstatus, hs⟩
    refine ⟨⟨row, hrow, hkey, hstatus, hs⟩, fun ⟨ho, hhas⟩ => hkept ⟨ho, hkey, s, hs, ?_, hhas⟩⟩
    exact ⟨row, hrow, hkey, hstatus, hs⟩
  · rintro ⟨⟨row, hrow, hkey, hstatus, hs⟩, hkept⟩
    refine ⟨row, ⟨hrow, fun ⟨ho, _, s', hs', _, hhas⟩ => hkept ⟨ho, ?_⟩⟩, hkey, hstatus, hs⟩
    rwa [Option.some.inj (hs.symm.trans hs')]

/-! ## All ranges -/

theorem deleteRanges_server (hrs : ∀ p ∈ rs, p.1.Proper) (hs : s ∈ v.server)
    (hout : ∀ p ∈ rs, ¬ p.1.Has s) : s ∈ (v.deleteRanges key rs).1.server := by
  induction rs generalizing v with
  | nil => exact hs
  | cons p rs ih =>
      obtain ⟨hp, hrs⟩ := List.forall_mem_cons.mp hrs
      obtain ⟨hfirst, hout⟩ := List.forall_mem_cons.mp hout
      exact ih hrs (deleteDialogueRange_server hp p.2 hs hfirst) hout

theorem deleteRanges_cache (key : DialogueKey) (v : DialogueView) (hrs : ∀ p ∈ rs, p.1.Proper) :
    (v.deleteRanges key rs).1.cache = v.cache := by
  induction rs generalizing v with
  | nil => rfl
  | cons p rs ih =>
      obtain ⟨hp, hrs⟩ := List.forall_mem_cons.mp hrs
      exact (ih _ hrs).trans (deleteDialogueRange_cache hp p.2)

/-- A row goes with the first range that is deleted and has its number. -/
theorem deleteRanges_store (hrs : ∀ p ∈ rs, p.1.Proper) {row : Message} :
    row ∈ (v.deleteRanges key rs).1.store.messages ↔ row ∈ v.store.messages
      ∧ ¬ (row.dialogue = key ∧ ∃ s, row.serverSeq = some s
        ∧ s ∈ v.store.getDeliveredServerSeqs key ∧ ∃ p ∈ rs, p.2 = .deleted ∧ p.1.Has s) := by
  induction rs generalizing v with
  | nil => simp [deleteRanges]
  | cons p rs ih =>
      obtain ⟨hp, hrs⟩ := List.forall_mem_cons.mp hrs
      have hstep := ih (v := (v.deleteDialogueRange key p.1 p.2).1) hrs
      simp only [deleteDialogueRange_store hp, deleteDialogueRange_delivered hp] at hstep
      refine hstep.trans ?_
      simp only [List.exists_mem_cons_iff]
      constructor
      · rintro ⟨⟨hrow, hfirst⟩, hrest⟩
        refine ⟨hrow, fun ⟨hkey, s, hs, hd, hcase⟩ => ?_⟩
        by_cases hgone : p.2 = .deleted ∧ p.1.Has s
        · exact hfirst ⟨hgone.1, hkey, s, hs, hd, hgone.2⟩
        · exact hrest ⟨hkey, s, hs, ⟨hd, hgone⟩, hcase.resolve_left hgone⟩
      · rintro ⟨hrow, hkept⟩
        exact ⟨⟨hrow, fun ⟨ho, hkey, s, hs, hd, hhas⟩ => hkept ⟨hkey, s, hs, hd, .inl ⟨ho, hhas⟩⟩⟩,
          fun ⟨hkey, s, hs, hd, hcase⟩ => hkept ⟨hkey, s, hs, hd.1, .inr hcase⟩⟩

theorem deleteRanges_failed (key : DialogueKey) (v : DialogueView) (hrs : ∀ p ∈ rs, p.1.Proper) :
    (v.deleteRanges key rs).2 = 0 ↔ ∀ p ∈ rs, p.2 = .deleted := by
  induction rs generalizing v with
  | nil => simp [deleteRanges]
  | cons p rs ih =>
      obtain ⟨hp, hrs⟩ := List.forall_mem_cons.mp hrs
      rw [List.forall_mem_cons, ← deleteDialogueRange_ok key v hp,
        ← ih (v.deleteDialogueRange key p.1 p.2).1 hrs, deleteRanges]
      dsimp only
      split <;> simp [*]

/-! ## The selected messages -/

/-- The ranges that are asked for, with what becomes of them. -/
def calls (v : DialogueView) (messageIds : List String) (outcome : Nat → RangeOutcome) :
    List (SeqRange × RangeOutcome) :=
  (v.selectedRanges messageIds).zipIdx.map fun (r, i) => (r, outcome i)

theorem mem_calls {p : SeqRange × RangeOutcome} : p ∈ v.calls messageIds outcome ↔
    ∃ i : Nat, (v.selectedRanges messageIds)[i]? = some p.1 ∧ p.2 = outcome i := by
  rw [calls, List.mem_map]
  constructor
  · rintro ⟨⟨r, i⟩, hmem, rfl⟩
    exact ⟨i, List.mem_zipIdx_iff_getElem?.mp hmem, rfl⟩
  · rintro ⟨i, hi, ho⟩
    exact ⟨(p.1, i), List.mem_zipIdx_iff_getElem?.mpr hi, Prod.ext rfl ho.symm⟩

theorem calls_proper (v : DialogueView) (messageIds : List String)
    (outcome : Nat → RangeOutcome) : ∀ p ∈ v.calls messageIds outcome, p.1.Proper := by
  intro p hp
  obtain ⟨i, hi, -⟩ := mem_calls.mp hp
  exact selectedRanges_proper p.1 (List.mem_of_getElem? hi)

theorem someFails_iff : v.SomeFails messageIds outcome ↔
    ¬ ∀ p ∈ v.calls messageIds outcome, p.2 = .deleted := by
  simp only [mem_calls, not_forall]
  constructor
  · rintro ⟨i, hi, ho⟩
    exact ⟨(_, outcome i), ⟨i, List.getElem?_eq_getElem hi, rfl⟩, ho⟩
  · rintro ⟨p, ⟨i, hi, heq⟩, ho⟩
    exact ⟨i, (List.getElem?_eq_some_iff.mp hi).1, heq ▸ ho⟩

/-- The cache changes only if there is something to delete and nothing fails. -/
theorem deleteMessages_cases (key : DialogueKey) (v : DialogueView) (messageIds : List String)
    (outcome : Nat → RangeOutcome) :
    (v.deleteMessages key messageIds outcome).server
        = (v.deleteRanges key (v.calls messageIds outcome)).1.server
    ∧ (v.deleteMessages key messageIds outcome).store
        = (v.deleteRanges key (v.calls messageIds outcome)).1.store
    ∧ ((v.deleteMessages key messageIds outcome).cache = v.cache
      ∨ ¬ v.SomeFails messageIds outcome
        ∧ (v.deleteMessages key messageIds outcome).cache = v.cache.filter (·.id ∉ messageIds)) := by
  have hcache := deleteRanges_cache key v (calls_proper v messageIds outcome)
  have hfailed := deleteRanges_failed key v (calls_proper v messageIds outcome)
  unfold deleteMessages
  dsimp only
  split
  · rename_i hempty
    have hnone : v.calls messageIds outcome = [] := by
      rw [calls, List.isEmpty_iff.mp hempty]
      rfl
    rw [hnone]
    exact ⟨rfl, rfl, .inl rfl⟩
  · split
    · rename_i hzero
      refine ⟨rfl, rfl, .inr ⟨fun hsome => someFails_iff.mp hsome (hfailed.mp hzero), ?_⟩⟩
      exact congrArg _ hcache
    · exact ⟨rfl, rfl, .inl hcache⟩

/-- A row of the dialogue goes where its number counts as delivered and a range with it is deleted. -/
theorem stays_iff {row : Message} (hrow : row ∈ v.store.messages) (hkey : row.dialogue = key)
    (hs : row.serverSeq = some s) :
    row ∈ (v.deleteMessages key messageIds outcome).store.messages ↔
      (s ∈ v.store.getDeliveredServerSeqs key → ¬ v.Gone messageIds outcome s) := by
  rw [(deleteMessages_cases key v messageIds outcome).2.1,
    deleteRanges_store (calls_proper v messageIds outcome)]
  constructor
  · rintro ⟨-, hkept⟩ hd ⟨i, r, hi, ho, hhas⟩
    exact hkept ⟨hkey, s, hs, hd, (r, outcome i), mem_calls.mpr ⟨i, hi, rfl⟩, ho, hhas⟩
  · refine fun hkept => ⟨hrow, fun ⟨_, s', hs', hd, p, hp, ho, hhas⟩ => ?_⟩
    obtain rfl := Option.some.inj (hs.symm.trans hs')
    obtain ⟨i, hi, heq⟩ := mem_calls.mp hp
    exact hkept hd ⟨i, p.1, hi, heq ▸ ho, hhas⟩

/-- Every row of another dialogue stays, and every one without a number. -/
theorem stays_of_other {row : Message} (hrow : row ∈ v.store.messages)
    (h : row.dialogue = key → row.serverSeq = none) :
    row ∈ (v.deleteMessages key messageIds outcome).store.messages := by
  rw [(deleteMessages_cases key v messageIds outcome).2.1,
    deleteRanges_store (calls_proper v messageIds outcome)]
  refine ⟨hrow, fun ⟨hkey, s, hs, _⟩ => ?_⟩
  rw [h hkey] at hs
  cases hs

theorem mem_deleteMessages_store {row : Message}
    (h : row ∈ (v.deleteMessages key messageIds outcome).store.messages) :
    row ∈ v.store.messages := by
  rw [(deleteMessages_cases key v messageIds outcome).2.1,
    deleteRanges_store (calls_proper v messageIds outcome)] at h
  exact h.1

/-- After a failure all that was shown is shown. -/
theorem shown_of_fails (hfail : v.SomeFails messageIds outcome) :
    (v.deleteMessages key messageIds outcome).cache = v.cache :=
  (deleteMessages_cases key v messageIds outcome).2.2.resolve_right fun h => h.1 hfail

/-- **A deletion deletes what was selected** exactly where the selected messages and their
attachments claim what is theirs, no other message is stored at these numbers, and either no range
fails or all that is shown is stored and those that are deleted hold none of it. -/
theorem deletesSelected_iff (key : DialogueKey) (owner : Nat → Option String) (v : DialogueView)
    (messageIds : List String) (outcome : Nat → RangeOutcome) :
    v.DeletesSelected key owner messageIds outcome ↔ v.Deletable key owner messageIds outcome := by
  constructor
  · intro h
    refine ⟨fun m hm hid hseq s hs => ?_, fun s hs => ?_, fun row hrow hkey hid s hs hd _ => ?_,
      fun hfail m hm hseq => ?_⟩
    · exact (h.asked s).mp (asked_iff.mpr ⟨m, hm, hid, hseq, hs⟩)
    · exact asked_iff.mp ((h.asked s).mpr hs)
    · exact (stays_iff hrow hkey hs).mp (h.store row hrow fun _ => hid) hd
    · -- the message is shown still, so it is still stored
      have hshown : m ∈ (v.deleteMessages key messageIds outcome).cache := shown_of_fails hfail ▸ hm
      obtain ⟨row, hrow, hkey, hs, hid⟩ := (h.shown hfail m hm hseq).mp hshown
      have hbefore := mem_deleteMessages_store hrow
      exact ⟨⟨row, hbefore, hkey, hs, hid⟩, (stays_iff hbefore hkey hs).mp hrow⟩
  · intro h
    have hasked : ∀ s, (∃ r ∈ v.selectedRanges messageIds, r.Has s) ↔
        v.OfSelected owner messageIds s := by
      refine fun s => asked_iff.trans ⟨?_, h.all s⟩
      rintro ⟨m, hm, hid, hseq, hs⟩
      exact h.claimed m hm hid hseq s hs
    refine ⟨hasked, fun s hs hother => ?_, fun row hrow hother => ?_, fun m hm hid => ?_,
      fun hfail m hm hseq => ?_⟩
    · rw [(deleteMessages_cases key v messageIds outcome).1]
      refine deleteRanges_server (calls_proper v messageIds outcome) hs fun p hp hhas => ?_
      obtain ⟨i, hi, -⟩ := mem_calls.mp hp
      obtain ⟨m, -, hid, -, howner⟩ := (hasked s).mp ⟨p.1, List.mem_of_getElem? hi, hhas⟩
      exact hother m.id hid howner
    · -- a row goes only by a call that has deleted its range here too
      by_cases hkey : row.dialogue = key
      case neg => exact stays_of_other hrow fun heq => absurd heq hkey
      cases hs : row.serverSeq with
      | none => exact stays_of_other hrow fun _ => hs
      | some s =>
          refine (stays_iff hrow hkey hs).mpr fun hd hgone => ?_
          have hof : v.OfSelected owner messageIds s := by
            obtain ⟨i, r, hi, -, hhas⟩ := hgone
            exact (hasked s).mp ⟨r, List.mem_of_getElem? hi, hhas⟩
          exact h.apart row hrow hkey (hother hkey) s hs hd hof hgone
    · rcases (deleteMessages_cases key v messageIds outcome).2.2 with hsame | ⟨-, hfilter⟩
      · exact hsame ▸ hm
      · exact hfilter ▸ List.mem_filter.mpr ⟨hm, decide_eq_true hid⟩
    · obtain ⟨⟨row, hrow, hkey, hs, hid⟩, hkept⟩ := h.whole hfail m hm hseq
      refine iff_of_true (shown_of_fails hfail ▸ hm) ⟨row, ?_, hkey, hs, hid⟩
      exact (stays_iff hrow hkey hs).mpr hkept

/-! ## A file and a message behind it -/

def aliceBob : DialogueKey := ⟨"alice", "bob"⟩

def storedAt (id : String) (seq : Nat) : Message :=
  ⟨id, aliceBob, "bob", .text "", 0, .delivered, some seq, none, none⟩

def fileAndText : LocalStore :=
  (LocalStore.empty.saveMessage (storedAt "file" 1)).saveMessage (storedAt "text" 3)

/-- A file with one chunk, and a message; how far the body of the file reaches is the sender's to say. -/
def fileAndMessage (bodyToSeq : Nat) : DialogueView where
  server := [1, 2, 3]
  store := fileAndText
  cache := [⟨"file", 1, 2, bodyToSeq⟩, ⟨"text", 3, 0, 0⟩]

def fileAndMessageOwner : Nat → Option String
  | 1 => some "file"
  | 2 => some "file"
  | 3 => some "text"
  | _ => none

theorem fileAndMessage_of (bodyToSeq : Nat) :
    (fileAndMessage bodyToSeq).Of aliceBob fileAndMessageOwner := by
  have hrows : ∀ row, row ∈ (fileAndMessage bodyToSeq).store.messages ↔
      row = storedAt "file" 1 ∨ row = storedAt "text" 3 := by
    intro row
    have hall : fileAndText.messages.rows = [storedAt "file" 1, storedAt "text" 3] := by decide
    rw [fileAndMessage, Table.mem_def, hall, List.mem_cons, List.mem_singleton]
  constructor
  · intro row hrow _ s hs
    rcases (hrows row).mp hrow with rfl | rfl <;> obtain rfl := Option.some.inj hs <;> rfl
  · intro m hm _
    rcases List.mem_cons.mp hm with rfl | hm
    · exact ⟨_, (hrows _).mpr (.inl rfl), rfl, rfl, rfl⟩
    · obtain rfl := List.mem_singleton.mp hm
      exact ⟨_, (hrows _).mpr (.inr rfl), rfl, rfl, rfl⟩

/-- The file claims its chunk. -/
theorem deletesSelected_file :
    (fileAndMessage 2).DeletesSelected aliceBob fileAndMessageOwner ["file"] fun _ => .deleted := by
  have hof := fileAndMessage_of 2
  have hmine : ∀ m ∈ (fileAndMessage 2).cache, m.id ∈ ["file"] → m = ⟨"file", 1, 2, 2⟩ := by decide
  refine (deletesSelected_iff aliceBob fileAndMessageOwner _ ["file"]
    fun _ => .deleted).mpr ⟨fun m hm hid _ s hs => ?_, fun s ⟨m, hm, hid, hseq, hs⟩ => ?_,
      fun row hrow hkey hid s hs _ hsel => ?_, ?_⟩
  · obtain rfl := hmine m hm hid
    refine ⟨⟨"file", 1, 2, 2⟩, hm, hid, by decide, ?_⟩
    rcases hs with rfl | hs
    · rfl
    · obtain rfl : s = 2 := le_antisymm hs.2.2 hs.2.1
      rfl
  · obtain rfl := hmine m hm hid
    refine ⟨⟨"file", 1, 2, 2⟩, hm, hid, hseq, ?_⟩
    match s, hs with
    | 1, _ => exact .inl rfl
    | 2, _ => exact .inr (by decide : 0 < 2 ∧ 2 ≤ 2 ∧ 2 ≤ 2)
    | 0, hs => cases hs
    | 3, hs => exact absurd hs (by decide)
    | n + 4, hs => cases hs
  · obtain ⟨m, -, hmid, -, howner⟩ := hsel
    have heq : row.id = m.id := Option.some.inj ((hof.own row hrow hkey s hs).symm.trans howner)
    exact absurd (heq ▸ hmid) hid
  · rintro ⟨i, _, ho⟩
    exact absurd rfl ho

/-- A file that claims the message behind it takes it along. -/
theorem neighbour_deleted :
    ¬ ∀ (key : DialogueKey) (owner : Nat → Option String) (v : DialogueView), v.Of key owner →
      ∀ (messageIds : List String) (outcome : Nat → RangeOutcome),
        v.DeletesSelected key owner messageIds outcome := by
  intro h
  have hdel := h aliceBob fileAndMessageOwner (fileAndMessage 3) (fileAndMessage_of 3) ["file"]
    fun _ => .deleted
  exact absurd (hdel.server 3 (by decide) (by decide)) (by decide)

end DialogueView

end Paranoia
