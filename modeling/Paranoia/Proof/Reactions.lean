import Mathlib.Data.Finset.Max
import Paranoia.Client.Reactions
import Paranoia.Proof.TimelineMerge

/-!
# Which reactions are shown

A merge appends the messages that are new and leaves the entries where they are, so the events of an
entry are those it had, and each reaction of the batch that is applied goes to the entry of the
message it names. Of one sender the last one that was applied stays.
-/

namespace Paranoia

namespace ReactionCache

variable {w : ReactionCache} {myId : String} {b : ChatBatch} {messages : List TimelineRow}
  {reactions rs : List ChatReaction} {applied : List String} {r : ChatReaction}

/-! ## Which reactions are new -/

theorem mem_freshReactions (h : r ∈ (freshReactions applied rs).1) :
    r ∈ rs ∧ (r.id ≠ "" → r.id ∉ applied) := by
  induction rs generalizing applied with
  | nil => cases h
  | cons a rs ih =>
      rw [freshReactions] at h
      split at h
      · exact (ih h).imp_left (List.mem_cons_of_mem _)
      · rename_i hnew
        rcases List.mem_cons.mp h with rfl | h
        · exact ⟨List.mem_cons_self, fun hid hmem => hnew ⟨hid, hmem⟩⟩
        · obtain ⟨hmem, hout⟩ := ih h
          refine ⟨List.mem_cons_of_mem _ hmem, fun hid hin => hout hid ?_⟩
          split
          · exact hin
          · exact List.mem_cons_of_mem _ hin

/-- Every reaction of the batch has been applied before or is brought by it. -/
theorem fresh_or_applied (applied : List String) (hr : r ∈ rs) :
    r.id ∈ applied ∨ ∃ r' ∈ (freshReactions applied rs).1, r'.id = r.id := by
  induction rs generalizing applied with
  | nil => cases hr
  | cons a rs ih =>
      rw [freshReactions]
      split
      · rename_i hold
        rcases List.mem_cons.mp hr with rfl | hr
        · exact .inl hold.2
        · exact ih _ hr
      · rename_i hnew
        rcases List.mem_cons.mp hr with rfl | hr
        · exact .inr ⟨r, List.mem_cons_self, rfl⟩
        · rcases ih (if a.id = "" then applied else a.id :: applied) hr with hin | ⟨r', hr', heq⟩
          · split at hin
            · exact .inl hin
            · rcases List.mem_cons.mp hin with heq | hin
              · exact .inr ⟨a, List.mem_cons_self, heq.symm⟩
              · exact .inl hin
          · exact .inr ⟨r', List.mem_cons_of_mem _ hr', heq⟩

theorem mem_applied (id : String) :
    id ∈ (freshReactions applied rs).2 ↔ id ∈ applied ∨ id ≠ "" ∧ ∃ r ∈ rs, r.id = id := by
  induction rs generalizing applied with
  | nil => simp [freshReactions]
  | cons a rs ih =>
      rw [freshReactions]
      split
      · rename_i hold
        rw [ih]
        constructor
        · rintro (hin | ⟨hne, r, hr, heq⟩)
          · exact .inl hin
          · exact .inr ⟨hne, r, List.mem_cons_of_mem _ hr, heq⟩
        · rintro (hin | ⟨hne, r, hr, heq⟩)
          · exact .inl hin
          · rcases List.mem_cons.mp hr with rfl | hr
            · exact .inl (heq ▸ hold.2)
            · exact .inr ⟨hne, r, hr, heq⟩
      · dsimp only
        rw [ih]
        by_cases ha : a.id = ""
        · rw [if_pos ha]
          refine or_congr_right (and_congr_right fun hne => ?_)
          simp only [List.mem_cons, exists_eq_or_imp, ha, Ne.symm hne, false_or]
        · rw [if_neg ha, List.mem_cons]
          constructor
          · rintro ((rfl | hin) | ⟨hne, r, hr, heq⟩)
            · exact .inr ⟨ha, a, List.mem_cons_self, rfl⟩
            · exact .inl hin
            · exact .inr ⟨hne, r, List.mem_cons_of_mem _ hr, heq⟩
          · rintro (hin | ⟨hne, r, hr, heq⟩)
            · exact .inl (.inr hin)
            · rcases List.mem_cons.mp hr with rfl | hr
              · exact .inl (.inl heq.symm)
              · exact .inr ⟨hne, r, hr, heq⟩

/-! ## The events of one entry -/

/-- Each sender once. -/
def Single (events : List ReactionEvent) : Prop := (events.map Prod.fst).Nodup

theorem mem_upsertEvent {sender emoji : String} {events : List ReactionEvent} (h : Single events)
    (x : ReactionEvent) : x ∈ upsertEvent sender emoji events ↔
      x = (sender, emoji) ∨ x ∈ events ∧ x.1 ≠ sender := by
  induction events with
  | nil => simp [upsertEvent]
  | cons event events ih =>
      obtain ⟨hnot, hrest⟩ := List.nodup_cons.mp h
      rw [upsertEvent]
      by_cases heq : event.1 = sender
      · rw [if_pos heq, List.mem_cons]
        refine or_congr_right ⟨fun hx => ⟨List.mem_cons_of_mem _ hx, fun hs => hnot ?_⟩, ?_⟩
        · exact heq.trans hs.symm ▸ List.mem_map_of_mem hx
        · rintro ⟨hx, hs⟩
          rcases List.mem_cons.mp hx with rfl | hx
          · exact absurd heq hs
          · exact hx
      · rw [if_neg heq, List.mem_cons, ih hrest, List.mem_cons]
        constructor
        · rintro (rfl | hx | ⟨hx, hs⟩)
          · exact .inr ⟨.inl rfl, heq⟩
          · exact .inl hx
          · exact .inr ⟨.inr hx, hs⟩
        · rintro (hx | ⟨rfl | hx, hs⟩)
          · exact .inr (.inl hx)
          · exact .inl rfl
          · exact .inr (.inr ⟨hx, hs⟩)

theorem Single.upsertEvent {sender emoji : String} {events : List ReactionEvent}
    (h : Single events) : Single (upsertEvent sender emoji events) := by
  induction events with
  | nil => exact List.nodup_singleton _
  | cons event events ih =>
      obtain ⟨hnot, hrest⟩ := List.nodup_cons.mp h
      rw [ReactionCache.upsertEvent]
      by_cases heq : event.1 = sender
      · rw [if_pos heq]
        exact List.nodup_cons.mpr ⟨heq ▸ hnot, hrest⟩
      · rw [if_neg heq]
        refine List.nodup_cons.mpr ⟨fun hmem => ?_, ih hrest⟩
        obtain ⟨x, hx, hfst⟩ := List.mem_map.mp hmem
        rcases (mem_upsertEvent hrest x).mp hx with rfl | ⟨hx, -⟩
        · exact heq hfst.symm
        · exact hnot (hfst ▸ List.mem_map_of_mem hx)

/-- Apply reactions to one entry. -/
def applyAll (events : List ReactionEvent) (rs : List ChatReaction) : List ReactionEvent :=
  rs.foldl (fun events r => upsertEvent r.sender r.emoji events) events

theorem Single.applyAll {events : List ReactionEvent} (h : Single events) (rs : List ChatReaction) :
    Single (applyAll events rs) := by
  induction rs generalizing events with
  | nil => exact h
  | cons r rs ih => exact ih h.upsertEvent

/-- **Of each sender the last reaction stays.** -/
theorem mem_applyAll {events : List ReactionEvent} (h : Single events) (rs : List ChatReaction)
    (sender emoji : String) : (sender, emoji) ∈ applyAll events rs ↔
      match (rs.filter fun r => r.sender = sender).getLast? with
      | some r => emoji = r.emoji
      | none => (sender, emoji) ∈ events := by
  induction rs using List.reverseRecOn with
  | nil => rfl
  | append_singleton rs r ih =>
      have hfold : applyAll events (rs ++ [r]) = upsertEvent r.sender r.emoji (applyAll events rs) := by
        unfold applyAll
        rw [List.foldl_append]
        rfl
      rw [hfold, mem_upsertEvent (h.applyAll rs), List.filter_append]
      by_cases hs : r.sender = sender
      · rw [show [r].filter (fun r => decide (r.sender = sender)) = [r] by simp [hs],
          List.getLast?_concat]
        subst hs
        simp
      · rw [show [r].filter (fun r => decide (r.sender = sender)) = [] by simp [hs], List.append_nil,
          ← ih]
        simp [Ne.symm hs]

theorem mem_reactionsForEvents {seen events : List ReactionEvent} (x : ReactionEvent) :
    x ∈ reactionsForEvents seen events ↔ x ∈ events ∧ x.1 ≠ "" ∧ x.2 ≠ "" ∧ x ∉ seen := by
  induction events generalizing seen with
  | nil => simp [reactionsForEvents]
  | cons event events ih =>
      rw [reactionsForEvents]
      by_cases hskip : event.2 = "" ∨ event.1 = "" ∨ event ∈ seen
      · rw [if_pos hskip, ih, List.mem_cons]
        refine ⟨fun ⟨hx, hrest⟩ => ⟨.inr hx, hrest⟩, ?_⟩
        rintro ⟨rfl | hx, h1, h2, h3⟩
        · rcases hskip with hz | hz | hz
          · exact absurd hz h2
          · exact absurd hz h1
          · exact absurd hz h3
        · exact ⟨hx, h1, h2, h3⟩
      · obtain ⟨he2, he1, he3⟩ := not_or.mp hskip |>.imp_right not_or.mp
        rw [if_neg hskip, List.mem_cons, ih]
        constructor
        · rintro (rfl | ⟨hx, h1, h2, h3⟩)
          · exact ⟨List.mem_cons_self, he1, he2, he3⟩
          · exact ⟨List.mem_cons_of_mem _ hx, h1, h2, fun hs => h3 (List.mem_cons_of_mem _ hs)⟩
        · rintro ⟨hx, h1, h2, h3⟩
          rcases List.mem_cons.mp hx with rfl | hx
          · exact .inl rfl
          · by_cases heq : x = event
            · exact .inl heq
            · refine .inr ⟨hx, h1, h2, fun hs => ?_⟩
              rcases List.mem_cons.mp hs with hs | hs
              · exact heq hs
              · exact h3 hs

/-! ## The events of all entries -/

/-- The reactions that go to a place. -/
def goingTo (idToIndex : List (String × Nat)) (i : Nat) (rs : List ChatReaction) :
    List ChatReaction :=
  rs.filter fun r => r.Valid ∧ idToIndex.lookup r.targetId = some i

theorem getElem?_applied (idToIndex : List (String × Nat)) (events : List (List ReactionEvent))
    (rs : List ChatReaction) (i : Nat) :
    (rs.foldl (applyReactionToCache idToIndex) events)[i]?
      = events[i]?.map fun ev => applyAll ev (goingTo idToIndex i rs) := by
  induction rs generalizing events with
  | nil => simp [goingTo, applyAll]
  | cons r rs ih =>
      rw [List.foldl_cons, ih]
      have hstep : (applyReactionToCache idToIndex events r)[i]?
          = events[i]?.map fun ev => applyAll ev (goingTo idToIndex i [r]) := by
        unfold applyReactionToCache goingTo
        by_cases hv : r.Valid
        · rw [if_pos hv]
          cases hl : idToIndex.lookup r.targetId with
          | none => simp [hl, applyAll]
          | some j =>
              dsimp only
              rw [List.getElem?_modify]
              by_cases hij : j = i
              · simp [hv, hl, hij, applyAll]
              · simp [hl, hij, applyAll]
        · rw [if_neg hv]
          simp [hv, applyAll]
      have hsplit : goingTo idToIndex i (r :: rs)
          = goingTo idToIndex i [r] ++ goingTo idToIndex i rs := by
        unfold goingTo
        rw [← List.filter_append]
        rfl
      rw [hstep, Option.map_map, hsplit]
      refine congrArg (Option.map · events[i]?) (funext fun ev => ?_)
      unfold applyAll
      rw [List.foldl_append]
      rfl

/-! ## The merge -/

/-- A merge of these messages that is under way: the indices know the entries, which are those that
there were and behind them new ones. -/
structure Merging (messages : List TimelineRow) (w : ReactionCache) (given : List TimelineRow)
    (s : TimelineRow.Merge × List (List ReactionEvent)) : Prop where
  ids : s.1.cache.Pairwise fun a b => a.id ≠ b.id
  known : ∀ m ∈ s.1.cache, m ∈ messages
  found : ∀ i m, s.1.cache[i]? = some m → s.1.idToIndex.lookup m.id = some i
  byId : ∀ id i, s.1.idToIndex.lookup id = some i → ∃ m, s.1.cache[i]? = some m ∧ m.id = id
  bySeq : ∀ seq i, s.1.seqToIndex.lookup seq = some i → ∃ m, s.1.cache[i]? = some m ∧ m.seq = seq
  new : ∃ new, s.1.cache = w.rows ++ new ∧ (∀ m ∈ new, m ∈ given)
    ∧ s.2 = w.cache.map ReactedRow.events ++ List.replicate new.length []

theorem pending_none (hD : OfDialogue messages reactions) {rows : List TimelineRow}
    (h : ∀ m ∈ rows, m ∈ messages) : Places.indexBy TimelineRow.pendingKey rows = [] := by
  refine List.eq_nil_iff_forall_not_mem.mpr fun x hx => ?_
  obtain ⟨m, hm, hkey⟩ := Places.mem_indexBy.mp hx
  have hpend := (TimelineRow.pendingKey_eq_some.mp hkey).1
  rw [(hD.numbered m (h m (List.mem_of_getElem? hm))).pending] at hpend
  cases hpend

theorem Merging.begin (hD : OfDialogue messages reactions)
    (hids : w.rows.Pairwise fun a b => a.id ≠ b.id) (hknown : ∀ m ∈ w.rows, m ∈ messages) :
    Merging messages w [] (TimelineRow.Merge.ofCache w.rows, w.cache.map ReactedRow.events) where
  ids := hids
  known := hknown
  found i m hm := by
    have hmem := List.mem_of_getElem? hm
    have hkey : m.idKey = some m.id :=
      TimelineRow.idKey_eq_some.mpr ⟨(hD.numbered m (hknown m hmem)).id, rfl⟩
    cases hl : (Places.indexBy TimelineRow.idKey w.rows).lookup m.id with
    | none => exact absurd hl (Places.lookup_indexBy_ne_none hmem hkey)
    | some j =>
        obtain ⟨m', hm', hkey'⟩ := Places.lookup_indexBy hl
        have heq := (TimelineRow.idKey_eq_some.mp hkey').2
        have hij : i = j := by
          by_contra hne
          exact Places.pairwise_at hids (fun h => h.symm) hne hm hm' heq.symm
        exact hij ▸ hl
  byId id i hl := by
    obtain ⟨m, hm, hkey⟩ := Places.lookup_indexBy hl
    exact ⟨m, hm, (TimelineRow.idKey_eq_some.mp hkey).2⟩
  bySeq seq i hl := by
    obtain ⟨m, hm, hkey⟩ := Places.lookup_indexBy hl
    exact ⟨m, hm, (TimelineRow.seqKey_eq_some.mp hkey).2⟩
  new := ⟨[], (List.append_nil _).symm, fun _ h => absurd h List.not_mem_nil, by simp⟩

/-- **One message.** -/
theorem Merging.add (myId : String) (hD : OfDialogue messages reactions) {given : List TimelineRow}
    {s : TimelineRow.Merge × List (List ReactionEvent)} (h : Merging messages w given s)
    {m : TimelineRow} (hm : m ∈ messages) :
    Merging messages w (given ++ [m]) (addMessage [] myId s m) := by
  have hnum := hD.numbered m hm
  have hid : m.idKey = some m.id := TimelineRow.idKey_eq_some.mpr ⟨hnum.id, rfl⟩
  have hseq : m.seqKey = some m.seq := TimelineRow.seqKey_eq_some.mpr ⟨hnum.seq, rfl⟩
  obtain ⟨new, hcache, hnew, hevents⟩ := h.new
  cases hl : s.1.idToIndex.lookup m.id with
  | some i =>
      -- it is there already and is written over itself
      have hfind : s.1.find [] myId m = some i := by
        unfold TimelineRow.Merge.find
        rw [hid, Option.bind_some, hl]
        rfl
      obtain ⟨m', hm', heq⟩ := h.byId _ i hl
      obtain rfl : m' = m :=
        hD.apart m' (h.known m' (List.mem_of_getElem? hm')) m hm (.inl heq)
      have hself : m'.inPlaceOf m' = m' := by
        unfold TimelineRow.inPlaceOf
        rw [hnum.token]
        cases m'
        cases hnum.token
        rfl
      have hsame : s.1.cache.modify i m'.inPlaceOf = s.1.cache := by
        refine List.ext_getElem? fun j => ?_
        rw [List.getElem?_modify]
        by_cases hij : i = j
        · rw [← hij, hm']
          simp [hself]
        · simp [hij]
      have hadd : addMessage [] myId s m'
          = (({ s.1 with cache := s.1.cache } : TimelineRow.Merge).note i m', s.2) := by
        unfold addMessage TimelineRow.Merge.add
        rw [hfind]
        dsimp only
        rw [hsame]
      rw [hadd]
      refine ⟨h.ids, h.known, fun j a ha => ?_, fun id j hj => ?_, fun seq j hj => ?_,
        ⟨new, hcache, fun a ha => List.mem_append_left _ (hnew a ha), hevents⟩⟩
      · have hfound := h.found j a ha
        unfold TimelineRow.Merge.note
        rw [hid]
        change List.lookup a.id ((m'.id, i) :: s.1.idToIndex) = some j
        rw [List.lookup_cons]
        by_cases he : a.id = m'.id
        · rw [he] at hfound
          rw [show (a.id == m'.id) = true by simpa using he]
          exact hl.symm.trans hfound
        · rw [show (a.id == m'.id) = false by simpa using he]
          exact hfound
      · unfold TimelineRow.Merge.note at hj
        rw [hid] at hj
        change List.lookup id ((m'.id, i) :: s.1.idToIndex) = some j at hj
        rw [List.lookup_cons] at hj
        by_cases he : id = m'.id
        · rw [show (id == m'.id) = true by simpa using he] at hj
          obtain rfl := Option.some.inj hj
          exact ⟨m', hm', he.symm⟩
        · rw [show (id == m'.id) = false by simpa using he] at hj
          exact h.byId id j hj
      · unfold TimelineRow.Merge.note at hj
        rw [hseq] at hj
        change List.lookup seq ((m'.seq, i) :: s.1.seqToIndex) = some j at hj
        rw [List.lookup_cons] at hj
        by_cases he : seq = m'.seq
        · rw [show (seq == m'.seq) = true by simpa using he] at hj
          obtain rfl := Option.some.inj hj
          exact ⟨m', hm', he.symm⟩
        · rw [show (seq == m'.seq) = false by simpa using he] at hj
          exact h.bySeq seq j hj
  | none =>
      have hout : ∀ a ∈ s.1.cache, a.id ≠ m.id := by
        intro a ha heq
        obtain ⟨j, hj⟩ := List.mem_iff_getElem?.mp ha
        have := h.found j a hj
        rw [heq, hl] at this
        cases this
      have hnoseq : s.1.seqToIndex.lookup m.seq = none := by
        cases hs : s.1.seqToIndex.lookup m.seq with
        | none => rfl
        | some j =>
            obtain ⟨a, ha, heq⟩ := h.bySeq _ j hs
            have hmem := List.mem_of_getElem? ha
            obtain rfl := hD.apart a (h.known a hmem) m hm (.inr heq)
            exact absurd rfl (hout a hmem)
      have hfind : s.1.find [] myId m = none := by
        unfold TimelineRow.Merge.find
        rw [hid, hseq, Option.bind_some, Option.bind_some, hl, hnoseq]
        simp
      have hadd : addMessage [] myId s m
          = (({ s.1 with cache := s.1.cache ++ [m] } : TimelineRow.Merge).note s.1.cache.length m,
            s.2 ++ [[]]) := by
        unfold addMessage TimelineRow.Merge.add
        rw [hfind]
      have hlast : (s.1.cache ++ [m])[s.1.cache.length]? = some m := by simp
      have hold : ∀ (j : Nat) (a : TimelineRow), s.1.cache[j]? = some a → (s.1.cache ++ [m])[j]? = some a := by
        intro j a ha
        rw [List.getElem?_append_left (List.getElem?_eq_some_iff.mp ha).1]
        exact ha
      rw [hadd]
      refine ⟨?_, fun a ha => ?_, fun j a ha => ?_, fun id j hj => ?_, fun seq j hj => ?_,
        ⟨new ++ [m], ?_, fun a ha => ?_, ?_⟩⟩
      · exact List.pairwise_append.mpr ⟨h.ids, List.pairwise_singleton _ _, fun a ha b hb => by
          rw [List.mem_singleton.mp hb]
          exact hout a ha⟩
      · rcases List.mem_append.mp ha with ha | ha
        · exact h.known a ha
        · exact List.mem_singleton.mp ha ▸ hm
      · unfold TimelineRow.Merge.note
        rw [hid]
        change List.lookup a.id ((m.id, s.1.cache.length) :: s.1.idToIndex) = some j
        change (s.1.cache ++ [m])[j]? = some a at ha
        rw [List.lookup_cons]
        by_cases hj : j < s.1.cache.length
        · rw [List.getElem?_append_left hj] at ha
          rw [show (a.id == m.id) = false by simpa using hout a (List.mem_of_getElem? ha)]
          exact h.found j a ha
        · rw [List.getElem?_append_right (Nat.le_of_not_lt hj)] at ha
          obtain ⟨hlt, rfl⟩ := List.getElem?_eq_some_iff.mp ha
          rw [List.length_singleton] at hlt
          have hje : s.1.cache.length = j := by omega
          simp [hje]
      · unfold TimelineRow.Merge.note at hj
        rw [hid] at hj
        change List.lookup id ((m.id, s.1.cache.length) :: s.1.idToIndex) = some j at hj
        rw [List.lookup_cons] at hj
        by_cases he : id = m.id
        · rw [show (id == m.id) = true by simpa using he] at hj
          obtain rfl := Option.some.inj hj
          exact ⟨m, hlast, he.symm⟩
        · rw [show (id == m.id) = false by simpa using he] at hj
          obtain ⟨a, ha, heq⟩ := h.byId id j hj
          exact ⟨a, hold j a ha, heq⟩
      · unfold TimelineRow.Merge.note at hj
        rw [hseq] at hj
        change List.lookup seq ((m.seq, s.1.cache.length) :: s.1.seqToIndex) = some j at hj
        rw [List.lookup_cons] at hj
        by_cases he : seq = m.seq
        · rw [show (seq == m.seq) = true by simpa using he] at hj
          obtain rfl := Option.some.inj hj
          exact ⟨m, hlast, he.symm⟩
        · rw [show (seq == m.seq) = false by simpa using he] at hj
          obtain ⟨a, ha, heq⟩ := h.bySeq seq j hj
          exact ⟨a, hold j a ha, heq⟩
      · change s.1.cache ++ [m] = _
        rw [hcache, List.append_assoc]
      · rcases List.mem_append.mp ha with ha | ha
        · exact List.mem_append_left _ (hnew a ha)
        · exact List.mem_append_right _ ha
      · change s.2 ++ [[]] = _
        rw [hevents, List.length_append, List.length_singleton, List.replicate_add,
          List.append_assoc]
        rfl

theorem Merging.all (myId : String) (hD : OfDialogue messages reactions) {given ms : List TimelineRow}
    {s : TimelineRow.Merge × List (List ReactionEvent)} (h : Merging messages w given s)
    (hms : ∀ m ∈ ms, m ∈ messages) :
    Merging messages w (given ++ ms) (ms.foldl (addMessage [] myId) s) := by
  induction ms generalizing given s with
  | nil => rwa [List.append_nil]
  | cons m ms ih =>
      have hnext := ih (h.add myId hD (hms m List.mem_cons_self))
        (fun m hm => hms m (List.mem_cons_of_mem _ hm))
      rwa [List.append_assoc] at hnext

/-! ## One batch -/

/-- The cache while reactions are given: it remembers which have been, and each entry has an event of
a sender once. -/
structure Sound (messages : List TimelineRow) (reactions all : List ChatReaction)
    (w : ReactionCache) : Prop where
  ids : w.rows.Pairwise fun a b => a.id ≠ b.id
  known : ∀ m ∈ w.rows, m ∈ messages
  given : ∀ r ∈ all, r ∈ reactions
  applied : ∀ r ∈ reactions, r.id ∈ w.appliedReactions ↔ r ∈ all
  single : ∀ entry ∈ w.cache, Single entry.events
  shows : ShowsLatest (all.filter (·.Valid)) w

/-- Of the reactions of a sender to a message one is the latest. -/
theorem exists_latest {given : List ChatReaction} (hr : r ∈ given) :
    ∃ r', Latest given r' ∧ r'.targetId = r.targetId ∧ r'.sender = r.sender := by
  let same := (given.filter fun a => a.targetId = r.targetId ∧ a.sender = r.sender).toFinset
  have hne : same.Nonempty := ⟨r, List.mem_toFinset.mpr (List.mem_filter.mpr ⟨hr, by simp⟩)⟩
  obtain ⟨g, hg, hmax⟩ := same.exists_max_image ChatReaction.seq hne
  obtain ⟨hmem, hsame⟩ := List.mem_filter.mp (List.mem_toFinset.mp hg)
  obtain ⟨ht, hs⟩ := of_decide_eq_true hsame
  refine ⟨g, ⟨hmem, fun a ha hat has => ?_⟩, ht, hs⟩
  exact hmax a (List.mem_toFinset.mpr (List.mem_filter.mpr
    ⟨ha, decide_eq_true ⟨hat.trans ht, has.trans hs⟩⟩))

theorem lastOfSender_mem {targetId sender : String} {r : ChatReaction}
    (h : lastOfSender rs targetId sender = some r) :
    r ∈ rs ∧ r.Valid ∧ r.targetId = targetId ∧ r.sender = sender := by
  obtain ⟨hmem, hr⟩ := List.mem_filter.mp (List.mem_of_getLast? h)
  exact ⟨hmem, of_decide_eq_true hr⟩

theorem lastOfSender_none {targetId sender : String} (h : lastOfSender rs targetId sender = none)
    {r : ChatReaction} (hr : r ∈ rs) (hv : r.Valid) (ht : r.targetId = targetId) :
    r.sender ≠ sender := by
  intro hs
  have hnil := List.getLast?_eq_none_iff.mp h
  exact absurd (List.mem_filter.mpr ⟨hr, decide_eq_true ⟨hv, ht, hs⟩⟩) (hnil ▸ List.not_mem_nil)

/-- Latest among more reactions, where none of its sender to its message has come. -/
theorem latest_append {given more : List ChatReaction} {targetId sender : String}
    (hno : ∀ r ∈ more, r.targetId = targetId → r.sender = sender → r ∈ given) (r : ChatReaction)
    (ht : r.targetId = targetId) (hs : r.sender = sender) :
    Latest (given ++ more) r ↔ Latest given r := by
  constructor
  · rintro ⟨hr, hmax⟩
    refine ⟨?_, fun a ha => hmax a (List.mem_append_left _ ha)⟩
    rcases List.mem_append.mp hr with hr | hr
    · exact hr
    · exact hno r hr ht hs
  · rintro ⟨hr, hmax⟩
    refine ⟨List.mem_append_left _ hr, fun a ha hat has => ?_⟩
    rcases List.mem_append.mp ha with ha | ha
    · exact hmax a ha hat has
    · exact hmax a (hno a ha (hat.trans ht) (has.trans hs)) hat has

/-- Where the sender reacts in a batch, the last reaction there is the latest. -/
theorem latest_brought {given : List ChatReaction} {targetId sender emoji : String}
    {r : ChatReaction} (hr : r ∈ given) (ht : r.targetId = targetId) (hs : r.sender = sender)
    (horder : ∀ g, Latest given g → g.targetId = targetId → g.sender = sender →
      g.emoji = r.emoji) :
    emoji = r.emoji ↔ ∃ g, Latest given g ∧ g.targetId = targetId ∧ g.sender = sender
      ∧ g.emoji = emoji := by
  constructor
  · intro hemoji
    obtain ⟨g, hg, hgt, hgs⟩ := exists_latest hr
    have hge := horder g hg (hgt.trans ht) (hgs.trans hs)
    exact ⟨g, hg, hgt.trans ht, hgs.trans hs, hge.trans hemoji.symm⟩
  · rintro ⟨g, hg, hgt, hgs, rfl⟩
    exact horder g hg hgt hgs

theorem exists_latest_append {given more : List ChatReaction} {targetId sender : String}
    (hno : ∀ r ∈ more, r.targetId = targetId → r.sender = sender → r ∈ given) (emoji : String) :
    (∃ r, Latest (given ++ more) r ∧ r.targetId = targetId ∧ r.sender = sender ∧ r.emoji = emoji)
      ↔ ∃ r, Latest given r ∧ r.targetId = targetId ∧ r.sender = sender ∧ r.emoji = emoji := by
  refine exists_congr fun r => ?_
  constructor
  · rintro ⟨hl, ht, hs, he⟩
    exact ⟨(latest_append hno r ht hs).mp hl, ht, hs, he⟩
  · rintro ⟨hl, ht, hs, he⟩
    exact ⟨(latest_append hno r ht hs).mpr hl, ht, hs, he⟩

/-- What goes to a message, of one sender. -/
theorem filter_sender (rs : List ChatReaction) (targetId sender : String) :
    (rs.filter fun r => decide (r.Valid ∧ r.targetId = targetId)).filter
        (fun r => decide (r.sender = sender))
      = rs.filter fun r => r.Valid ∧ r.targetId = targetId ∧ r.sender = sender := by
  rw [List.filter_filter]
  refine List.filter_congr fun r _ => ?_
  rw [← Bool.decide_and]
  exact decide_eq_decide.mpr ⟨fun h => ⟨h.2.1, h.2.2, h.1⟩, fun h => ⟨h.2.2, h.1, h.2.1⟩⟩

/-- Where the sender does not react in a batch, what the batch repeats was given before. -/
theorem Sound.given_before (hD : OfDialogue messages reactions) {all : List ChatReaction}
    (h : Sound messages reactions all w) (hr : ∀ r ∈ b.reactions, r ∈ reactions)
    {targetId sender : String}
    (hnone : lastOfSender (freshReactions w.appliedReactions b.reactions).1 targetId sender = none) :
    ∀ r ∈ b.reactions.filter (·.Valid), r.targetId = targetId → r.sender = sender →
      r ∈ all.filter (·.Valid) := by
  intro r hmem ht hs
  obtain ⟨hinb, hv⟩ := List.mem_filter.mp hmem
  refine List.mem_filter.mpr ⟨?_, hv⟩
  rcases fresh_or_applied w.appliedReactions hinb with hin | ⟨r', hr', hid⟩
  · exact (h.applied r (hr r hinb)).mp hin
  · have hin' := (mem_freshReactions hr').1
    obtain rfl := hD.told r' (hr r' hin') r (hr r hinb) (.inl hid)
    exact absurd hs (lastOfSender_none hnone hr' (of_decide_eq_true hv) ht)

theorem sortByTs_perm (cache : List ReactedRow) : (sortByTs cache).Perm cache :=
  List.perm_insertionSort _ _

/-- The entries after a batch: those of the merge, each with the reactions that go to it. -/
theorem mem_appendMessages (myId : String) (hD : OfDialogue messages reactions) {all : List ChatReaction}
    (h : Sound messages reactions all w) (hm : ∀ m ∈ b.messages, m ∈ messages)
    (hne : ¬ (b.messages = [] ∧ b.reactions = [])) :
    ∃ new, (∀ m ∈ new, m ∈ b.messages)
      ∧ (w.rows ++ new).Pairwise (fun a b => a.id ≠ b.id) ∧ (∀ m ∈ w.rows ++ new, m ∈ messages)
      ∧ (appendMessages myId w b).appliedReactions
        = (freshReactions w.appliedReactions b.reactions).2
      ∧ ∃ l : List ReactedRow, (appendMessages myId w b).cache.Sublist (sortByTs l)
        ∧ l.map ReactedRow.row = w.rows ++ new
        ∧ ∀ (i : Nat) (entry : ReactedRow), l[i]? = some entry →
          ∃ events, (w.cache.map ReactedRow.events ++ List.replicate new.length [])[i]? = some events
            ∧ entry.events = applyAll events
              ((freshReactions w.appliedReactions b.reactions).1.filter fun r =>
                r.Valid ∧ r.targetId = entry.row.id) := by
  have hmerge := (Merging.begin hD h.ids h.known).all myId hD hm
  rw [List.nil_append] at hmerge
  unfold appendMessages
  rw [if_neg hne, pending_none hD h.known]
  dsimp only
  set s := b.messages.foldl (addMessage [] myId)
    (TimelineRow.Merge.ofCache w.rows, w.cache.map ReactedRow.events)
  set fresh := (freshReactions w.appliedReactions b.reactions).1
  obtain ⟨new, hcache, hnew, hevents⟩ := hmerge.new
  set events := fresh.foldl (applyReactionToCache s.1.idToIndex) s.2
  have hlen : events.length = s.1.cache.length := by
    have hfold : ∀ (rs : List ChatReaction) (evs : List (List ReactionEvent)),
        (rs.foldl (applyReactionToCache s.1.idToIndex) evs).length = evs.length := by
      intro rs
      induction rs with
      | nil => exact fun _ => rfl
      | cons r rs ih =>
          intro evs
          rw [List.foldl_cons, ih]
          unfold applyReactionToCache
          split
          · split
            · rfl
            · exact List.length_modify _ _ _
          · rfl
    rw [hfold, hevents, hcache]
    simp [rows]
  refine ⟨new, hnew, hcache ▸ hmerge.ids, hcache ▸ hmerge.known, rfl,
    List.zipWith ReactedRow.mk s.1.cache events, List.drop_sublist _ _, ?_, fun i entry hi => ?_⟩
  · rw [← hcache, List.map_zipWith]
    refine List.ext_getElem? fun i => ?_
    rw [List.getElem?_zipWith]
    cases hc : s.1.cache[i]? with
    | none => rfl
    | some m =>
        have hlt : i < events.length := hlen ▸ (List.getElem?_eq_some_iff.mp hc).1
        rw [List.getElem?_eq_getElem hlt]
  · rw [List.getElem?_zipWith] at hi
    cases hc : s.1.cache[i]? with
    | none =>
        rw [hc] at hi
        cases hi
    | some m =>
        have happly := getElem?_applied s.1.idToIndex s.2 fresh i
        cases he : s.2[i]? with
        | none =>
            have hlt : i < s.2.length := by
              have := (List.getElem?_eq_some_iff.mp hc).1
              rw [hevents]
              rw [hcache] at this
              simpa [rows] using this
            rw [List.getElem?_eq_getElem hlt] at he
            cases he
        | some ev =>
            rw [he, Option.map_some] at happly
            change events[i]? = _ at happly
            rw [hc, happly] at hi
            obtain rfl := Option.some.inj hi
            refine ⟨ev, hevents ▸ he, congrArg (applyAll ev) ?_⟩
            -- what the index finds at the place is what names the message
            refine List.filter_congr fun r _ => decide_eq_decide.mpr (and_congr_right fun _ => ?_)
            constructor
            · intro hl
              obtain ⟨m', hm', hid⟩ := hmerge.byId _ i hl
              obtain rfl := Option.some.inj (hc.symm.trans hm')
              exact hid.symm
            · intro ht
              rw [ht]
              exact hmerge.found i m hc

/-- **One batch in order.** -/
theorem Sound.step (myId : String) (hD : OfDialogue messages reactions) {all : List ChatReaction}
    (h : Sound messages reactions all w) (hm : ∀ m ∈ b.messages, m ∈ messages)
    (hr : ∀ r ∈ b.reactions, r ∈ reactions) (ho : InOrder w (all.filter (·.Valid)) b) :
    Sound messages reactions (all ++ b.reactions) (appendMessages myId w b) := by
  by_cases hne : b.messages = [] ∧ b.reactions = []
  · have hsame : appendMessages myId w b = w := if_pos hne
    rwa [hsame, hne.2, List.append_nil]
  · obtain ⟨new, hnew, hids, hknown, happlied, l, hsub, hrows, hentries⟩ :=
      mem_appendMessages myId hD h hm hne
    have hperm : (sortByTs l).Perm l := sortByTs_perm l
    have hl : (l.map ReactedRow.row).Pairwise fun a b => a.id ≠ b.id := hrows ▸ hids
    have hsorted : ((sortByTs l).map ReactedRow.row).Pairwise fun a b => a.id ≠ b.id :=
      ((hperm.map _).pairwise_iff fun h => h.symm).mpr hl
    have hevents : ∀ (i : Nat) (ev : List ReactionEvent), (w.cache.map ReactedRow.events
        ++ List.replicate new.length [])[i]? = some ev → Single ev := by
      intro i ev hev
      rcases List.mem_append.mp (List.mem_of_getElem? hev) with hmem | hmem
      · obtain ⟨entry, hentry, rfl⟩ := List.mem_map.mp hmem
        exact h.single entry hentry
      · rw [List.eq_of_mem_replicate hmem]
        exact List.nodup_nil
    have hat : ∀ entry ∈ (appendMessages myId w b).cache, ∃ i : Nat, l[i]? = some entry :=
      fun entry hentry => List.mem_iff_getElem?.mp (hperm.mem_iff.mp (hsub.subset hentry))
    have hall : ∀ r ∈ all ++ b.reactions, r ∈ reactions := by
      intro r hmem
      rcases List.mem_append.mp hmem with hmem | hmem
      · exact h.given r hmem
      · exact hr r hmem
    refine ⟨hsorted.sublist (hsub.map _), fun m hmem => ?_, hall, fun r hmem => ?_,
      fun entry hentry => ?_, fun entry hentry sender emoji => ?_⟩
    · obtain ⟨entry, hentry, rfl⟩ := List.mem_map.mp hmem
      have hin : entry.row ∈ l.map ReactedRow.row :=
        List.mem_map_of_mem (hperm.mem_iff.mp (hsub.subset hentry))
      exact hknown _ (hrows ▸ hin)
    · rw [happlied, mem_applied, List.mem_append, h.applied r hmem]
      refine or_congr_right ⟨?_, fun hin => ⟨hD.named r hmem, r, hin, rfl⟩⟩
      rintro ⟨-, r', hr', heq⟩
      exact hD.told r' (hr r' hr') r hmem (.inl heq) ▸ hr'
    · obtain ⟨i, hi⟩ := hat entry hentry
      obtain ⟨ev, hev, heq⟩ := hentries i entry hi
      exact heq ▸ (hevents i ev hev).applyAll _
    · obtain ⟨i, hi⟩ := hat entry hentry
      obtain ⟨ev, hev, heq⟩ := hentries i entry hi
      have hrow : (w.rows ++ new)[i]? = some entry.row := by
        rw [← hrows, List.getElem?_map, hi]
        rfl
      have hplace : entry.row ∈ b.messages ∨ entry.row ∈ w.rows := by
        rcases List.mem_append.mp (List.mem_of_getElem? hrow) with hmem | hmem
        · exact .inr hmem
        · exact .inl (hnew _ hmem)
      have horder := ho entry.row hplace sender
      have hvalid : (all ++ b.reactions).filter (·.Valid)
          = all.filter (·.Valid) ++ b.reactions.filter (·.Valid) := List.filter_append _ _
      rw [mem_reactionsForEvents, heq, mem_applyAll (hevents i ev hev), filter_sender, hvalid]
      change (match lastOfSender (freshReactions w.appliedReactions b.reactions).1 entry.row.id
          sender with
        | some r => emoji = r.emoji
        | none => (sender, emoji) ∈ ev) ∧ _ ↔ _
      cases hfresh : lastOfSender (freshReactions w.appliedReactions b.reactions).1 entry.row.id
          sender with
      | some r =>
          -- the sender reacts in this batch
          rw [hfresh] at horder
          obtain ⟨hmem, hv, ht, hs⟩ := lastOfSender_mem hfresh
          have hgiven : r ∈ all.filter (·.Valid) ++ b.reactions.filter (·.Valid) :=
            List.mem_append_right _
              (List.mem_filter.mpr ⟨(mem_freshReactions hmem).1, decide_eq_true hv⟩)
          rw [← latest_brought hgiven ht hs horder]
          exact and_iff_left_of_imp fun hemoji =>
            ⟨hs ▸ hv.2.2, hemoji ▸ hv.2.1, List.not_mem_nil⟩
      | none =>
          rw [hfresh] at horder
          dsimp only
          rw [exists_latest_append (h.given_before hD hr hfresh)]
          by_cases hi' : i < w.cache.length
          · -- the entry was there before
            have hlen : i < w.rows.length := by simpa [rows] using hi'
            rw [List.getElem?_append_left hlen] at hrow
            rw [List.getElem?_append_left (by simpa using hi')] at hev
            obtain ⟨old, hold, rfl⟩ : ∃ old, w.cache[i]? = some old ∧ old.events = ev := by
              rw [List.getElem?_map] at hev
              exact Option.map_eq_some_iff.mp hev
            have hsame : old.row = entry.row := by
              rw [rows, List.getElem?_map, hold] at hrow
              exact Option.some.inj hrow
            rw [← hsame, ← h.shows old (List.mem_of_getElem? hold) sender emoji,
              mem_reactionsForEvents]
          · -- the entry is new
            rw [List.getElem?_append_right (by simpa using hi')] at hev
            have hnil : ev = [] := List.eq_of_mem_replicate (List.mem_of_getElem? hev)
            subst hnil
            refine iff_of_false (fun hshown => absurd hshown.1 List.not_mem_nil) ?_
            rintro ⟨r, hl, ht, hs, -⟩
            rcases horder with hin | hnone
            · obtain ⟨j, hj⟩ := List.mem_iff_getElem?.mp hin
              have hlt := (List.getElem?_eq_some_iff.mp hj).1
              have hjl : (w.rows ++ new)[j]? = some entry.row := by
                rw [List.getElem?_append_left hlt]
                exact hj
              have hij : i ≠ j := by
                have : w.rows.length = w.cache.length := by simp [rows]
                omega
              exact Places.pairwise_at hids (fun h => h.symm) hij hrow hjl rfl
            · exact hnone r hl.1 ⟨ht, hs⟩

/-! ## All batches -/

theorem Sound.empty (messages : List TimelineRow) (reactions : List ChatReaction) :
    Sound messages reactions [] empty where
  ids := List.Pairwise.nil
  known _ h := absurd h List.not_mem_nil
  given _ h := absurd h List.not_mem_nil
  applied _ _ := iff_of_false List.not_mem_nil List.not_mem_nil
  single _ h := absurd h List.not_mem_nil
  shows _ h := absurd h List.not_mem_nil

end ReactionCache

end Paranoia
