import Paranoia.Client.CodexChannel
import Paranoia.Lib.Lts

/-!
# Delivery to Codex

A request is sent only when the disk says that it may have been, and the disk is asked before every
request; so a message is added once, whatever stops in between. The batch in hand and the pending
message account for all that is in scope up to them, but for what came into the store after they were
read; so the cursor passes nothing else (`delivered`).

A message that comes in below what is in hand is passed without having been added
(`late_message_passed`).
-/

namespace Paranoia

/-! ## Client ids -/

theorem length_decimal (width n : Nat) : (decimal width n).length = width := by
  induction width generalizing n with
  | zero => rfl
  | succ width ih => rw [decimal, List.length_append, ih, List.length_singleton]

theorem digitChar_inj : ∀ a b : Fin 10, Nat.digitChar a = Nat.digitChar b → a = b := by decide

theorem decimal_inj {width m n : Nat} (hm : m < 10 ^ width) (hn : n < 10 ^ width)
    (h : decimal width m = decimal width n) : m = n := by
  induction width generalizing m n with
  | zero => omega
  | succ width ih =>
      obtain ⟨hdiv, hmod⟩ := List.append_inj' h rfl
      have hdiv : m / 10 = n / 10 := ih (by omega) (by omega) hdiv
      have hmod := digitChar_inj ⟨m % 10, by omega⟩ ⟨n % 10, by omega⟩ (List.singleton_inj.mp hmod)
      have hmod : m % 10 = n % 10 := Fin.val_eq_of_eq hmod
      omega

theorem clientId_inj {tag : String} {k k' : MessageKey} (h : clientId tag k = clientId tag k') :
    k = k' := by
  have hchars := congrArg String.toList h
  simp only [clientId, String.toList_append, String.toList_ofList, List.append_assoc] at hchars
  have hrest := List.append_cancel_left hchars
  obtain ⟨hseq, hid⟩ := List.append_inj hrest (by rw [length_decimal, length_decimal])
  have hseq : k.seq.val = k'.seq.val := decimal_inj (by omega) (by omega) hseq
  have hid : k.messageId = k'.messageId := String.toList_inj.mp (List.append_cancel_left hid)
  cases k
  cases k'
  cases Fin.ext hseq
  cases hid
  rfl

/-! ## Batches -/

namespace StoreRow

variable {store : List StoreRow} {after : ServerSeq} {limit : Nat} {r b : StoreRow}

theorem mem_messagesAfterSeq (h : r ∈ messagesAfterSeq store after limit) :
    r ∈ store ∧ after < r.seq := by
  have hsort := List.mem_of_mem_take (List.mem_filter.mp h).1
  obtain ⟨hstore, hafter⟩ := List.mem_filter.mp ((List.mem_insertionSort _).mp hsort)
  exact ⟨hstore, of_decide_eq_true hafter⟩

/-- Rows with different numbers stand in their order. -/
theorem pairwise_sorted (after : ServerSeq) (h : store.Pairwise fun a b => a.seq ≠ b.seq) :
    ((store.filter (after < ·.seq)).insertionSort fun a b => a.seq ≤ b.seq).Pairwise
      fun a b => a.seq < b.seq := by
  have hle := List.pairwise_insertionSort (fun a b : StoreRow => a.seq ≤ b.seq)
    (store.filter (after < ·.seq))
  have hne := (List.perm_insertionSort (fun a b : StoreRow => a.seq ≤ b.seq)
    (store.filter (after < ·.seq))).symm.pairwise (h.filter _) fun hab => Ne.symm hab
  exact (hle.and hne).imp fun hab => lt_of_le_of_ne hab.1 hab.2

theorem pairwise_messagesAfterSeq (h : store.Pairwise fun a b => a.seq ≠ b.seq) :
    (messagesAfterSeq store after limit).Pairwise fun a b => a.seq < b.seq :=
  ((pairwise_sorted _ h).sublist (List.take_sublist _ _)).filter _

/-- A batch has every row up to its last. -/
theorem mem_messagesAfterSeq_of_le (h : store.Pairwise fun a b => a.seq ≠ b.seq) (hr : r ∈ store)
    (hafter : after < r.seq) (hcontent : r.content.isSome)
    (hb : b ∈ messagesAfterSeq store after limit) (hle : r.seq ≤ b.seq) :
    r ∈ messagesAfterSeq store after limit := by
  refine List.mem_filter.mpr ⟨?_, hcontent⟩
  have hfilter : r ∈ store.filter (after < ·.seq) :=
    List.mem_filter.mpr ⟨hr, decide_eq_true hafter⟩
  have hsort := (List.mem_insertionSort fun a b : StoreRow => a.seq ≤ b.seq).mpr hfilter
  have hpair := pairwise_sorted after h
  rw [← List.take_append_drop limit (List.insertionSort _ _)] at hsort hpair
  rcases List.mem_append.mp hsort with hr | hr
  · exact hr
  · have hlt := (List.pairwise_append.mp hpair).2.2 b (List.mem_filter.mp hb).1 r hr
    exact absurd hle (not_le.mpr hlt)

theorem isSome_of_inScope {selfHash : String} {topicId : Option String}
    (h : r.inScope selfHash topicId) : r.content.isSome := by
  unfold inScope at h
  cases hcontent : r.content with
  | none => simp [hcontent] at h
  | some => rfl

end StoreRow

namespace CodexWorld

variable {anchor : ServerSeq} {w w' w₀ : CodexWorld} {p : CodexPending} {r : StoreRow}

/-! ## What is known of a state -/

/-- What the place in the program says of the pending message. -/
def At (w : CodexWorld) : Prop :=
  match w.pc with
  | .enqueue rows => ∃ p ∈ w.disk.pending, p.submitted ∧ p.key ∉ w.added ∧ w.requests = []
      ∧ rows.head?.map StoreRow.key = some p.key
  | .awaiting rows => ∃ p ∈ w.disk.pending, rows.head?.map StoreRow.key = some p.key
      ∧ ∀ k ∈ w.requests, k = p.key
  | .rejected => ∃ p ∈ w.disk.pending, p.key ∉ w.added ∧ w.requests = []
  | .checking => ∃ p ∈ w.disk.pending, ¬p.submitted
  | _ => True

structure Sound (anchor : ServerSeq) (w : CodexWorld) : Prop extends Delivered anchor w where
  seqs : w.store.Pairwise fun a b => a.seq ≠ b.seq
  before : ∀ k ∈ w.added, k.seq ≤ w.disk.seq ∨ ∃ p ∈ w.disk.pending, p.submitted ∧ k = p.key
  above : ∀ p ∈ w.disk.pending, ∀ k ∈ w.added, k = p.key ∨ k.seq < p.seq
  unsubmitted : ∀ p ∈ w.disk.pending, ¬p.submitted → p.key ∉ w.added
  requests : w.requests = [] ∨ ∃ p ∈ w.disk.pending,
    p.submitted ∧ w.requests = [p.key] ∧ p.key ∉ w.added
  ids : ∀ k, w.confirmed (clientId w.tag k) → k ∈ w.added
  sorted : w.hand.Pairwise fun a b => a.seq < b.seq
  ahead : ∀ b ∈ w.hand, w.disk.seq < b.seq
  hand : ∀ r ∈ w.store, w.InScope r → w.disk.seq < r.seq → (∃ b ∈ w.hand, r.seq ≤ b.seq) →
    r ∈ w.hand ∨ r ∈ w.late
  pending : ∀ p ∈ w.disk.pending, ∀ r ∈ w.store, w.InScope r → w.disk.seq < r.seq →
    r.seq ≤ p.seq → r.key = p.key ∨ r ∈ w.late
  at_ : w.At

theorem nodup_of_order {added : List MessageKey} (h : added.Pairwise fun a b => a.seq < b.seq) :
    added.Nodup := by
  refine h.imp fun hlt heq => ?_
  subst heq
  exact lt_irrefl _ hlt

/-- Rows of the hand go on, or are dropped. -/
theorem Sound.goto (h : w.Sound anchor) {pc : ChannelPc}
    (hhand : ({ w with pc } : CodexWorld).hand = w.hand ∨ ({ w with pc } : CodexWorld).hand = [])
    (hat : ({ w with pc } : CodexWorld).At) : ({ w with pc } : CodexWorld).Sound anchor := by
  rcases hhand with hhand | hhand
  · exact { h with
      sorted := by rw [hhand]; exact h.sorted
      ahead := by rw [hhand]; exact h.ahead
      hand := by rw [hhand]; exact h.hand
      at_ := hat }
  · exact { h with
      sorted := by rw [hhand]; exact .nil
      ahead := by rw [hhand]; exact fun _ hb => absurd hb List.not_mem_nil
      hand := by
        rw [hhand]
        rintro - - - - ⟨b, hb, -⟩
        cases hb
      at_ := hat }

theorem Sound.down (h : w.Sound anchor) : ({ w with pc := .down } : CodexWorld).Sound anchor :=
  h.goto (.inr rfl) trivial

/-! ## Steps of the channel -/

theorem Sound.read (h : w.Sound anchor) (hs : w.read = some w') : w'.Sound anchor := by
  obtain ⟨-, hs⟩ := Option.ite_none_right_eq_some.mp hs
  dsimp only at hs
  -- the batch has every row up to its last, so only what is below the pending message stays late
  have hbatch : ({ w with
      pc := .batch (StoreRow.messagesAfterSeq w.store w.disk.seq 256)
      late := w.late.filter fun r =>
        r.seq ≤ w.disk.seq ∨ ∃ p ∈ w.disk.pending, r.seq ≤ p.seq } : CodexWorld).Sound anchor :=
    { h with
      kept := fun r hr hscope hanchor hle => by
        rcases h.kept r hr hscope hanchor hle with hadded | hdeleted | hlate
        · exact .inl hadded
        · exact .inr (.inl hdeleted)
        · exact .inr (.inr (List.mem_filter.mpr ⟨hlate, decide_eq_true (.inl hle)⟩))
      sorted := StoreRow.pairwise_messagesAfterSeq h.seqs
      ahead := fun b hb => (StoreRow.mem_messagesAfterSeq hb).2
      hand := fun r hr hscope hlt ⟨b, hb, hle⟩ =>
        .inl (StoreRow.mem_messagesAfterSeq_of_le h.seqs hr hlt (StoreRow.isSome_of_inScope hscope)
          hb hle)
      pending := fun p hp r hr hscope hlt hle => by
        rcases h.pending p hp r hr hscope hlt hle with hkey | hlate
        · exact .inl hkey
        · exact .inr (List.mem_filter.mpr ⟨hlate, decide_eq_true (.inr ⟨p, hp, hle⟩)⟩)
      at_ := trivial }
  split at hs
  · cases hs
    exact hbatch
  · rename_i p hp
    split at hs
    · cases hs
      exact hbatch
    · cases hs
      cases hsubmitted : p.submitted with
      | true => exact h.goto (.inr rfl) trivial
      | false => exact h.goto (.inr rfl) ⟨p, hp, by simp [hsubmitted]⟩

theorem Sound.skip (h : w.Sound anchor) (hs : w.skip = some w') : w'.Sound anchor := by
  unfold CodexWorld.skip at hs
  split at hs
  · rename_i r rows hpc
    obtain ⟨⟨-, hscope⟩, hs⟩ := Option.ite_none_right_eq_some.mp hs
    cases hs
    have hhand : w.hand = r :: rows := by rw [CodexWorld.hand, hpc]
    obtain ⟨hfirst, hsorted⟩ := List.pairwise_cons.mp (hhand ▸ h.sorted)
    have hahead : w.disk.seq < r.seq := h.ahead r (hhand ▸ List.mem_cons_self)
    -- the row that is skipped is not in scope, so what is in scope comes after it or was late
    have hin {x : StoreRow} (hx : x ∈ w.store) (hxscope : w.InScope x) (hlt : w.disk.seq < x.seq)
        {b : StoreRow} (hb : b ∈ r :: rows) (hle : x.seq ≤ b.seq) : x ∈ rows ∨ x ∈ w.late := by
      rcases h.hand x hx hxscope hlt ⟨b, hhand ▸ hb, hle⟩ with hmem | hlate
      · rcases List.mem_cons.mp (hhand ▸ hmem) with rfl | hmem
        · exact absurd hxscope hscope
        · exact .inl hmem
      · exact .inr hlate
    exact { h with
      kept := fun x hx hxscope hanchor hle => by
        by_cases hcursor : x.seq ≤ w.disk.seq
        · exact h.kept x hx hxscope hanchor hcursor
        · rcases hin hx hxscope (not_le.mp hcursor) List.mem_cons_self hle with hmem | hlate
          · exact absurd (hfirst x hmem) (not_lt.mpr hle)
          · exact .inr (.inr hlate)
      before := fun k hk => (h.before k hk).imp_left fun hle => hle.trans hahead.le
      sorted := hsorted
      ahead := hfirst
      hand := fun x hx hxscope hlt ⟨b, hb, hle⟩ =>
        hin hx hxscope (hahead.trans hlt) (List.mem_cons_of_mem _ hb) hle
      pending := fun p hp x hx hxscope hlt hle =>
        h.pending p hp x hx hxscope (hahead.trans hlt) hle
      at_ := trivial }
  · cases hs

theorem Sound.record (h : w.Sound anchor) (hs : w.record = some w') : w'.Sound anchor := by
  unfold CodexWorld.record at hs
  split at hs
  · rename_i r rows hpc hnone
    obtain ⟨hscope, hs⟩ := Option.ite_none_right_eq_some.mp hs
    cases hs
    have hhand : w.hand = r :: rows := by rw [CodexWorld.hand, hpc]
    have hahead : w.disk.seq < r.seq := h.ahead r (hhand ▸ List.mem_cons_self)
    -- nothing is pending, so all that was added is at or below the cursor
    have hadded : ∀ k ∈ w.added, k.seq < r.seq := by
      intro k hk
      rcases h.before k hk with hle | ⟨p, hp, -⟩
      · exact hle.trans_lt hahead
      · rw [hnone] at hp
        cases hp
    exact { h with
      before := fun k hk => by
        rcases h.before k hk with hle | ⟨p, hp, -⟩
        · exact .inl hle
        · rw [hnone] at hp
          cases hp
      above := by
        rintro p ⟨⟩ k hk
        exact .inr (hadded k hk)
      unsubmitted := by
        rintro p ⟨⟩ - hk
        exact lt_irrefl _ (hadded _ hk)
      requests := by
        rcases h.requests with hnil | ⟨p, hp, -⟩
        · exact .inl hnil
        · rw [hnone] at hp
          cases hp
      pending := by
        rintro p ⟨⟩ x hx hxscope hlt hle
        rcases h.hand x hx hxscope hlt ⟨r, hhand ▸ List.mem_cons_self, hle⟩ with hmem | hlate
        · rcases List.mem_cons.mp (hhand ▸ hmem) with rfl | hmem
          · exact .inl rfl
          · have hfirst := (List.pairwise_cons.mp (hhand ▸ h.sorted)).1
            exact absurd (hfirst x hmem) (not_lt.mpr hle)
        · exact .inr hlate
      at_ := by
        unfold CodexWorld.At
        rw [hpc]
        trivial }
  · cases hs

theorem deliver_eq_some {act : CodexPending → List StoreRow → Option CodexWorld}
    (hs : w.deliver act = some w') :
    ∃ r rows p, w.pc = .batch (r :: rows) ∧ w.disk.pending = some p ∧ r.key = p.key
      ∧ act p (r :: rows) = some w' := by
  unfold CodexWorld.deliver at hs
  split at hs
  · rename_i r rows p hpc hp
    obtain ⟨⟨-, hkey⟩, hs⟩ := Option.ite_none_right_eq_some.mp hs
    exact ⟨r, rows, p, hpc, hp, hkey, hs⟩
  · cases hs

/-- What was done for the pending message is put down. -/
theorem Sound.setPending (h : w.Sound anchor) (hp : w.disk.pending = some p) (p' : CodexPending)
    (hkey : p'.key = p.key) (hopen : ¬p'.submitted → p.key ∉ w.added ∧ w.requests = [])
    (hat : ({ w with disk := { w.disk with pending := some p' } } : CodexWorld).At) :
    ({ w with disk := { w.disk with pending := some p' } } : CodexWorld).Sound anchor where
  toDelivered := { h.toDelivered with }
  seqs := h.seqs
  before := by
    intro k hk
    rcases h.before k hk with hle | ⟨q, hq, -, rfl⟩
    · exact .inl hle
    · cases hp.symm.trans hq
      by_cases hsubmitted : p'.submitted
      · exact .inr ⟨p', rfl, hsubmitted, hkey.symm⟩
      · exact absurd hk (hopen hsubmitted).1
  above := by
    rintro q ⟨⟩ k hk
    rw [hkey, show p'.seq = p.seq from congrArg MessageKey.seq hkey]
    exact h.above p hp k hk
  unsubmitted := by
    rintro q ⟨⟩ hsubmitted
    rw [hkey]
    exact (hopen hsubmitted).1
  requests := by
    rcases h.requests with hnil | ⟨q, hq, -, hrequests, hadded⟩
    · exact .inl hnil
    · cases hp.symm.trans hq
      by_cases hsubmitted : p'.submitted
      · exact .inr ⟨p', rfl, hsubmitted, by rw [hkey]; exact hrequests, by rw [hkey]; exact hadded⟩
      · exact .inl (hopen hsubmitted).2
  ids := h.ids
  sorted := h.sorted
  ahead := h.ahead
  hand := h.hand
  pending := by
    rintro q ⟨⟩ r hr hscope hlt hle
    rw [show p'.seq = p.seq from congrArg MessageKey.seq hkey] at hle
    rw [hkey]
    exact h.pending p hp r hr hscope hlt hle
  at_ := hat

theorem Sound.requests_eq_nil (h : w.Sound anchor) (hp : w.disk.pending = some p)
    (hdone : p.key ∈ w.added ∨ ¬p.submitted) : w.requests = [] := by
  rcases h.requests with hnil | ⟨q, hq, hsubmitted, -, hadded⟩
  · exact hnil
  · cases hp.symm.trans hq
    rcases hdone with hdone | hdone
    · exact absurd hdone hadded
    · exact absurd hsubmitted hdone

theorem Sound.react (h : w.Sound anchor) (hs : w.react = some w') : w'.Sound anchor := by
  obtain ⟨r, rows, p, hpc, hp, -, hs⟩ := deliver_eq_some hs
  obtain ⟨-, hs⟩ := Option.ite_none_left_eq_some.mp hs
  cases hs
  refine h.setPending hp _ rfl (fun hsubmitted => ?_) ?_
  · exact ⟨h.unsubmitted p hp hsubmitted, h.requests_eq_nil hp (.inr hsubmitted)⟩
  · unfold CodexWorld.At
    rw [hpc]
    trivial

theorem Sound.submit (h : w.Sound anchor) (hs : w.submit = some w') : w'.Sound anchor := by
  obtain ⟨r, rows, p, hpc, hp, hkey, hs⟩ := deliver_eq_some hs
  obtain ⟨⟨-, hsubmitted⟩, hs⟩ := Option.ite_none_right_eq_some.mp hs
  cases hs
  have hset := h.setPending hp { p with submitted := true } rfl (fun hnot => absurd rfl hnot)
    (by unfold CodexWorld.At; rw [hpc]; trivial)
  refine hset.goto (.inl ?_) ⟨_, rfl, rfl, h.unsubmitted p hp hsubmitted,
    h.requests_eq_nil hp (.inr hsubmitted), congrArg some hkey⟩
  simp only [CodexWorld.hand, hpc]

theorem Sound.send (h : w.Sound anchor) (hs : w.send = some w') : w'.Sound anchor := by
  unfold CodexWorld.send at hs
  split at hs
  · rename_i rows p hpc hp
    cases hs
    have hat := h.at_
    simp only [CodexWorld.At, hpc] at hat
    obtain ⟨q, hq, hsubmitted, hadded, hrequests, hhead⟩ := hat
    cases hp.symm.trans hq
    have hsent : ({ w with
        requests := p.key :: w.requests, pc := .down } : CodexWorld).Sound anchor :=
      { h.down with
        requests := .inr ⟨p, hp, hsubmitted, by rw [hrequests], hadded⟩
        at_ := trivial }
    exact { hsent with
      sorted := by have := h.sorted; rwa [CodexWorld.hand, hpc] at this
      ahead := by have := h.ahead; rwa [CodexWorld.hand, hpc] at this
      hand := by have := h.hand; rwa [CodexWorld.hand, hpc] at this
      at_ := ⟨p, hp, hhead, by rw [hrequests]; simp⟩ }
  · cases hs

/-- The pending message was added, or is deleted: it is done with. -/
theorem Sound.advance (h : w.Sound anchor) (hp : w.disk.pending = some p)
    (hdone : p.key ∈ w.added ∨ p.seq ∈ w.deleted ∧ ¬p.submitted) {rows : List StoreRow}
    (hrows : rows = [] ∨ ∃ r, w.hand = r :: rows ∧ r.seq = p.seq) :
    (w.advance p (.batch rows)).Sound anchor where
  once := h.once
  order := h.order
  kept := by
    intro x hx hscope hanchor hle
    by_cases hcursor : x.seq ≤ w.disk.seq
    · exact h.kept x hx hscope hanchor hcursor
    -- between the cursor and the pending message nothing else is in scope
    · rcases h.pending p hp x hx hscope (not_le.mp hcursor) hle with hkey | hlate
      · rcases hdone with hadded | ⟨hdeleted, -⟩
        · exact .inl (hkey ▸ hadded)
        · refine .inr (.inl ?_)
          rw [show x.seq = p.seq from congrArg MessageKey.seq hkey]
          exact hdeleted
      · exact .inr (.inr hlate)
  seqs := h.seqs
  before := by
    intro k hk
    rcases h.above p hp k hk with rfl | hlt
    · exact .inl le_rfl
    · exact .inl hlt.le
  above := nofun
  unsubmitted := nofun
  requests := .inl (h.requests_eq_nil hp (hdone.imp_right And.right))
  ids := h.ids
  sorted := by
    rcases hrows with rfl | ⟨r, hhand, -⟩
    · exact .nil
    · exact (List.pairwise_cons.mp (hhand ▸ h.sorted)).2
  ahead := by
    rcases hrows with rfl | ⟨r, hhand, hseq⟩
    · exact fun _ hb => absurd hb List.not_mem_nil
    · intro b hb
      exact (hseq ▸ (List.pairwise_cons.mp (hhand ▸ h.sorted)).1 b hb : p.seq < b.seq)
  hand := by
    rintro x hx hscope hlt ⟨b, hb, hle⟩
    rcases hrows with rfl | ⟨r, hhand, hseq⟩
    · cases hb
    · have hahead : w.disk.seq < p.seq := hseq ▸ h.ahead r (hhand ▸ List.mem_cons_self)
      rcases h.hand x hx hscope (hahead.trans hlt) ⟨b, hhand ▸ List.mem_cons_of_mem _ hb, hle⟩
        with hmem | hlate
      · rcases List.mem_cons.mp (hhand ▸ hmem) with rfl | hmem
        · exact absurd hlt (not_lt.mpr hseq.le)
        · exact .inl hmem
      · exact .inr hlate
  pending := nofun
  at_ := trivial

theorem Sound.answered (h : w.Sound anchor) (hs : w.answered = some w') : w'.Sound anchor := by
  unfold CodexWorld.answered at hs
  split at hs
  · rename_i rows p hpc hp
    obtain ⟨hadded, hs⟩ := Option.ite_none_right_eq_some.mp hs
    cases hs
    have hat := h.at_
    simp only [CodexWorld.At, hpc] at hat
    obtain ⟨q, hq, hhead, -⟩ := hat
    cases hp.symm.trans hq
    refine h.advance hp (.inl hadded) ?_
    cases rows with
    | nil => cases hhead
    | cons r rows =>
        have hkey : r.key = p.key := Option.some.inj hhead
        exact .inr ⟨r, by rw [CodexWorld.hand, hpc]; rfl, congrArg MessageKey.seq hkey⟩
  · cases hs

theorem Sound.reject (h : w.Sound anchor) (hs : w.reject = some w') : w'.Sound anchor := by
  unfold CodexWorld.reject at hs
  split at hs
  · rename_i rows p hpc hp
    obtain ⟨hmem, hs⟩ := Option.ite_none_right_eq_some.mp hs
    cases hs
    rcases h.requests with hnil | ⟨q, hq, -, hrequests, hadded⟩
    · rw [hnil] at hmem
      cases hmem
    · cases hp.symm.trans hq
      have hnone : w.requests.filter (· ≠ p.key) = [] := by rw [hrequests]; simp
      exact { h.down with
        requests := .inl hnone
        at_ := ⟨p, hp, hadded, hnone⟩ }
  · cases hs

theorem Sound.unsubmit (h : w.Sound anchor) (hs : w.unsubmit = some w') : w'.Sound anchor := by
  unfold CodexWorld.unsubmit at hs
  split at hs
  · rename_i p hpc hp
    cases hs
    have hat := h.at_
    simp only [CodexWorld.At, hpc] at hat
    obtain ⟨q, hq, hopen⟩ := hat
    cases hp.symm.trans hq
    exact h.down.setPending hp { p with submitted := false } rfl (fun _ => hopen) trivial
  · cases hs

/-- What Codex has under the id of a message is this message. -/
theorem Sound.confirm (h : w.Sound anchor) (hs : w.confirm = some w') : w'.Sound anchor := by
  unfold CodexWorld.confirm at hs
  split at hs
  · obtain ⟨p, hp, hs⟩ := Option.bind_eq_some_iff.mp hs
    obtain ⟨hfound, hs⟩ := Option.ite_none_right_eq_some.mp hs
    cases hs
    exact (h.advance hp (.inl (h.ids _ hfound)) (.inl rfl)).goto (.inr rfl) trivial
  · obtain ⟨r, rows, p, hpc, hp, hkey, hs⟩ := deliver_eq_some hs
    obtain ⟨⟨-, -, hfound⟩, hs⟩ := Option.ite_none_right_eq_some.mp hs
    cases hs
    refine h.advance hp (.inl (h.ids _ hfound)) (.inr ⟨r, ?_, congrArg MessageKey.seq hkey⟩)
    rw [CodexWorld.hand, hpc]
    rfl

theorem Sound.check (h : w.Sound anchor) (hs : w.check = some w') : w'.Sound anchor := by
  unfold CodexWorld.check at hs
  split at hs
  · rename_i p hpc hp
    have hat := h.at_
    simp only [CodexWorld.At, hpc] at hat
    obtain ⟨q, hq, hsubmitted⟩ := hat
    cases hp.symm.trans hq
    split at hs
    · rename_i hdeleted
      cases hs
      exact (h.advance hp (.inr ⟨hdeleted, hsubmitted⟩) (.inl rfl)).goto (.inr rfl) trivial
    · cases hs
      exact h.down
  · cases hs

/-! ## Steps of Codex and of the store -/

/-- The request is the one of the pending message, which all others that were added are before. -/
theorem Sound.execute {k : MessageKey} (h : w.Sound anchor) (hs : w.execute k = some w') :
    w'.Sound anchor := by
  obtain ⟨hmem, hs⟩ := Option.ite_none_right_eq_some.mp hs
  cases hs
  rcases h.requests with hnil | ⟨p, hp, hsubmitted, hrequests, hadded⟩
  · rw [hnil] at hmem
    cases hmem
  -- no other request is open
  cases List.mem_singleton.mp (hrequests ▸ hmem)
  have hnone : w.requests.filter (· ≠ p.key) = [] := by rw [hrequests]; simp
  have hlast : ∀ k ∈ w.added, k.seq < p.key.seq := by
    intro k hk
    rcases h.above p hp k hk with rfl | hlt
    · exact absurd hk hadded
    · exact hlt
  have horder : (w.added ++ [p.key]).Pairwise fun a b => a.seq < b.seq := by
    refine List.pairwise_append.mpr ⟨h.order, List.pairwise_singleton _ _, fun k hk b hb => ?_⟩
    cases List.mem_singleton.mp hb
    exact hlast k hk
  exact { h with
    once := nodup_of_order horder
    order := horder
    kept := fun r hr hscope hanchor hle =>
      (h.kept r hr hscope hanchor hle).imp_left (List.mem_append_left _)
    before := fun k hk => by
      rcases List.mem_append.mp hk with hk | hk
      · exact h.before k hk
      · cases List.mem_singleton.mp hk
        exact .inr ⟨p, hp, hsubmitted, rfl⟩
    above := fun q hq k hk => by
      cases hp.symm.trans hq
      rcases List.mem_append.mp hk with hk | hk
      · exact h.above p hp k hk
      · exact .inl (List.mem_singleton.mp hk)
    unsubmitted := fun q hq hnot => by
      cases hp.symm.trans hq
      exact absurd hsubmitted hnot
    requests := .inl hnone
    ids := fun k hfound => by
      simp only [confirmed, Bool.or_eq_true, decide_eq_true_eq] at hfound
      rcases hfound with hqueue | hhistory
      · rcases List.mem_append.mp hqueue with hqueue | hqueue
        · exact List.mem_append_left _ (h.ids k (by simp [confirmed, hqueue]))
        · exact List.mem_append_right _
            (List.mem_singleton.mpr (clientId_inj (List.mem_singleton.mp hqueue)))
      · exact List.mem_append_left _ (h.ids k (by simp [confirmed, hhistory]))
    at_ := by
      have hat := h.at_
      unfold CodexWorld.At at hat ⊢
      dsimp only
      split at hat
      · obtain ⟨q, -, -, -, hnil, -⟩ := hat
        rw [hnil] at hmem
        cases hmem
      · obtain ⟨q, hq, hhead, -⟩ := hat
        exact ⟨q, hq, hhead, by rw [hnone]; exact nofun⟩
      · obtain ⟨q, -, -, hnil⟩ := hat
        rw [hnil] at hmem
        cases hmem
      · exact hat
      · trivial }

theorem Sound.start {id : String} (h : w.Sound anchor) (hid : id ∈ w.queue) :
    ({ w with queue := w.queue.erase id, history := w.history ++ [id] } : CodexWorld).Sound
      anchor :=
  { h with
    ids := fun k hfound => by
      refine h.ids k ?_
      simp only [confirmed, Bool.or_eq_true, decide_eq_true_eq] at hfound ⊢
      rcases hfound with hqueue | hhistory
      · exact .inl (List.mem_of_mem_erase hqueue)
      · rcases List.mem_append.mp hhistory with hhistory | hhistory
        · exact .inr hhistory
        · exact .inl (List.mem_singleton.mp hhistory ▸ hid) }

/-- What comes in is not passed by what has been read, or it is put down as late. -/
theorem Sound.save {store : List StoreRow} (h : w.Sound anchor)
    (hs : StoreRow.save w.store r = some store) :
    ({ w with store, late := if w.Past r then r :: w.late else w.late } : CodexWorld).Sound
      anchor := by
  obtain ⟨hnew, hs⟩ := Option.ite_none_left_eq_some.mp hs
  cases hs
  have hmono {x : StoreRow} (hx : x ∈ w.late) : x ∈ if w.Past r then r :: w.late else w.late := by
    split
    · exact List.mem_cons_of_mem _ hx
    · exact hx
  have hlate (hpast : w.Past r) : r ∈ if w.Past r then r :: w.late else w.late := by
    rw [if_pos hpast]
    exact List.mem_cons_self
  have hstore {x : StoreRow} (hx : x ∈ r :: w.store.filter (·.id ≠ r.id)) :
      x = r ∨ x ∈ w.store :=
    (List.mem_cons.mp hx).imp_right fun hx => (List.mem_filter.mp hx).1
  exact { h with
    kept := fun x hx hscope hanchor hle => by
      rcases hstore hx with rfl | hx
      · exact .inr (.inr (hlate (.inl hle)))
      · exact (h.kept x hx hscope hanchor hle).imp_right (Or.imp_right hmono)
    seqs := by
      refine List.pairwise_cons.mpr ⟨fun b hb heq => hnew ?_, h.seqs.filter _⟩
      exact List.any_eq_true.mpr ⟨b, (List.mem_filter.mp hb).1, decide_eq_true heq.symm⟩
    hand := fun x hx hscope hlt hbatch => by
      rcases hstore hx with rfl | hx
      · by_cases hmem : x ∈ w.hand
        · exact .inl hmem
        · exact .inr (hlate (.inr (.inr ⟨hmem, hbatch⟩)))
      · exact (h.hand x hx hscope hlt hbatch).imp_right hmono
    pending := fun p hp x hx hscope hlt hle => by
      rcases hstore hx with rfl | hx
      -- the pending message itself may come back
      · by_cases hkey : x.key = p.key
        · exact .inl hkey
        · exact .inr (hlate (.inr (.inl ⟨p, hp, hle, hkey⟩)))
      · exact (h.pending p hp x hx hscope hlt hle).imp_right hmono }

theorem Sound.remove {id : String} (h : w.Sound anchor) :
    ({ w with store := w.store.filter (·.id ≠ id) } : CodexWorld).Sound anchor :=
  { h with
    kept := fun x hx => h.kept x (List.mem_filter.mp hx).1
    seqs := h.seqs.filter _
    hand := fun x hx => h.hand x (List.mem_filter.mp hx).1
    pending := fun p hp x hx => h.pending p hp x (List.mem_filter.mp hx).1 }

theorem Sound.step {l : CodexLabel} (h : w.Sound anchor) (hs : w.step l = some w') :
    w'.Sound anchor := by
  cases l with
  | connect =>
      obtain ⟨-, hs⟩ := Option.ite_none_right_eq_some.mp hs
      cases hs
      exact h.goto (.inr rfl) trivial
  | fail =>
      cases hs
      exact h.down
  | read => exact h.read hs
  | skip => exact h.skip hs
  | record => exact h.record hs
  | react => exact h.react hs
  | submit => exact h.submit hs
  | send => exact h.send hs
  | answered => exact h.answered hs
  | reject => exact h.reject hs
  | unsubmit => exact h.unsubmit hs
  | confirm => exact h.confirm hs
  | check => exact h.check hs
  | next =>
      obtain ⟨-, hs⟩ := Option.ite_none_right_eq_some.mp hs
      cases hs
      exact h.goto (.inr rfl) trivial
  | execute => exact h.execute hs
  | start =>
      obtain ⟨hid, hs⟩ := Option.ite_none_right_eq_some.mp hs
      cases hs
      exact h.start hid
  | save =>
      obtain ⟨store, hsave, rfl⟩ := Option.map_eq_some_iff.mp hs
      exact h.save hsave
  | remove =>
      cases hs
      exact h.remove
  | deleteSeq =>
      cases hs
      exact { h with
        kept := fun r hr hscope hanchor hle =>
          (h.kept r hr hscope hanchor hle).imp_right (Or.imp_left (List.mem_cons_of_mem _)) }

/-! ## Runs -/

/-- The channel was bound to the thread, and has done nothing since. -/
structure Bound (anchor : ServerSeq) (w : CodexWorld) : Prop where
  seqs : w.store.Pairwise fun a b => a.seq ≠ b.seq
  disk : w.disk = ⟨anchor, none⟩
  pc : w.pc = .down
  requests : w.requests = []
  ids : ∀ k, w.confirmed (clientId w.tag k) = false
  added : w.added = []

theorem Bound.sound (h : w.Bound anchor) : w.Sound anchor where
  once := by rw [h.added]; exact .nil
  kept r _ _ hanchor hle := by
    rw [h.disk] at hle
    exact absurd hanchor (not_lt.mpr hle)
  order := by rw [h.added]; exact .nil
  seqs := h.seqs
  before := by rw [h.added]; exact nofun
  above := by rw [h.added]; exact nofun
  unsubmitted := by rw [h.disk]; exact nofun
  requests := .inl h.requests
  ids k hfound := by rw [h.ids] at hfound; cases hfound
  sorted := by rw [CodexWorld.hand, h.pc]; exact .nil
  ahead := by rw [CodexWorld.hand, h.pc]; exact fun _ hb => absurd hb List.not_mem_nil
  hand := by
    rw [CodexWorld.hand, h.pc]
    rintro - - - - ⟨b, hb, -⟩
    cases hb
  pending := by rw [h.disk]; exact nofun
  at_ := by rw [CodexWorld.At, h.pc]; trivial

/-- In every run, whatever stops and whatever Codex and the store do, messages are added once and in
the order of their numbers, and the cursor passes only what was added, was deleted, or had come in
where the channel had read already. -/
theorem delivered (h0 : w₀.Bound anchor) (hr : Lts.Reach step (fun _ _ => True) w₀ w) :
    w.Delivered anchor :=
  (hr.invariant (P := Sound anchor) h0.sound fun _ _ _ _ h _ hs => h.step hs).toDelivered

/-! ## Examples of runs -/

def codexText (id : String) (seq : ServerSeq) : StoreRow :=
  ⟨id, seq, "peer", some "topic", some (.text "text")⟩

/-- The anchor is 10, and 12 is in the store. -/
def boundAtTen : CodexWorld where
  selfHash := "me"
  topicId := some "topic"
  tag := "paranoia:"
  store := [codexText "m12" 12]
  deleted := []
  disk := ⟨10, none⟩
  pc := .down
  requests := []
  queue := []
  history := []
  added := []
  late := []

theorem bound_boundAtTen : boundAtTen.Bound 10 where
  seqs := List.pairwise_singleton _ _
  disk := rfl
  pc := rfl
  requests := rfl
  ids _ := rfl
  added := rfl

def addTwelve : List CodexLabel := [.record, .react, .submit, .send, .execute ⟨12, "m12"⟩]

/-- The answer is lost; the message is found in the history, and another comes. -/
def lostReply : List CodexLabel :=
  [.connect, .read] ++ addTwelve ++ [.fail, .connect, .read,
    .start (clientId "paranoia:" ⟨12, "m12"⟩), .confirm, .save (codexText "m13" 13), .next, .read,
    .record, .react, .submit, .send, .reject, .unsubmit, .connect, .read, .submit, .send,
    .execute ⟨13, "m13"⟩, .answered]

theorem delivered_lostReply :
    ∃ w, Lts.exec step boundAtTen lostReply = some w
      ∧ w.added = [⟨12, "m12"⟩, ⟨13, "m13"⟩] ∧ w.Delivered 10 := by
  have hsome : ((Lts.execWhile step (fun _ _ => True) boundAtTen lostReply).any fun w =>
      w.added = [⟨12, "m12"⟩, ⟨13, "m13"⟩]) = true := by
    decide
  obtain ⟨w, hw, hadded⟩ := (Option.any_eq_true _ _).mp hsome
  exact ⟨w, Lts.exec_of_execWhile hw, of_decide_eq_true hadded,
    delivered bound_boundAtTen (Lts.Reach.refl.execWhile hw)⟩

/-- 11 comes in while 12 is in hand. -/
def savedBelow : List CodexLabel := [.connect, .read, .save (codexText "m11" 11)] ++ addTwelve

/-- The cursor goes from 10 to 12, past 11, which is in the store and in scope, was not deleted and
was not added. -/
theorem late_message_passed :
    ((Lts.exec step boundAtTen savedBelow).any fun w =>
      w.disk.seq = 10 ∧ codexText "m11" 11 ∈ w.store ∧ w.InScope (codexText "m11" 11)
        ∧ w.deleted = [] ∧ w.added = [⟨12, "m12"⟩]
        ∧ (w.step .answered).any fun w' => w'.disk.seq = 12 ∧ w'.store = w.store
          ∧ w'.added = w.added) = true := by
  decide

end CodexWorld
end Paranoia
