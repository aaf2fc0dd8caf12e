import Paranoia.Lib.Table
import Paranoia.Proof.TimelineSound

/-!
# What is delivered

A batch is merged, the message of a send takes the place of its unsent text, a deletion is carried
out in the cache, and a load makes it anew.
-/

namespace Paranoia

namespace Timeline

open TimelineRow hiding id

section Merges

variable {me : String} {ever history cache ms : List TimelineRow} {outbox : List TimelineItem}
  {sif : List String} {k : TimelineWorker} {ks rest : List TimelineWorker}
  {b m r : TimelineRow} {t text : String}

/-- The message of a batch that the send with this token is of. -/
def Is (ks : List TimelineWorker) (t : String) (b : TimelineRow) : Prop :=
  ∃ m, Sent ks t m ∧ Shows b m

namespace Sound

/-- What is in a batch can be told apart. -/
theorem fits (h : Sound me ever history cache outbox sif ks)
    (hms : ∀ b ∈ ms, ∃ m ∈ ever, Shows b m) (hd : ms.Pairwise Distinct)
    (htexts : ∀ b ∈ ms, b.kind = .text → b.sender = me → (∀ r ∈ cache, r.id ≠ b.id) →
      ∀ r ∈ pendingRow cache b.text, Is ks r.id b) : Fits cache me (Is ks) ms where
  ids := h.ids
  numbered := fun b hb => by
    obtain ⟨m, hm, hs⟩ := hms b hb
    have hnum := h.numbered m hm
    rw [hs.id_eq, hs.seq_eq]
    exact ⟨hnum.id, hnum.pending, hnum.seq⟩
  distinct := hd
  seqs := fun r hr b hb he => by
    obtain ⟨m, hm, hs⟩ := hms b hb
    rcases h.rows r hr with ⟨item, -, hp⟩ | ⟨m', hm', hs', -⟩
    · exact absurd (hs.seq_eq.symm.trans (he.symm.trans hp.seq_eq)) (h.numbered m hm).seq
    · have := h.ever_seq hm' hm (hs'.seq_eq.symm.trans (he.trans hs.seq_eq))
      rw [hs'.id_eq, hs.id_eq, this]
  texts := htexts
  once := fun t b hb b' hb' ⟨m, hm, hs⟩ ⟨m', hm', hs'⟩ => by
    rw [hs.id_eq, hs'.id_eq, h.sent_eq hm hm']

theorem pairwise_distinct (h : Sound me ever history cache outbox sif ks) (hn : ms.Nodup)
    (hms : ∀ m ∈ ms, m ∈ ever) : ms.Pairwise Distinct :=
  hn.imp_of_mem fun ha hb hne =>
    ⟨fun he => hne (h.ever_id (hms _ ha) (hms _ hb) he),
      fun he => hne (h.ever_seq (hms _ ha) (hms _ hb) he)⟩

/-- What a message is taken for shows it already, or is the unsent text that it was made of. -/
theorem taken (h : Sound me ever history cache outbox sif ks) (hr : r ∈ cache) (hm : m ∈ ever)
    (hb : Shows b m) (ht : Takes (Is ks) cache b r) :
    Shows r m ∨ isPendingId r.id = true ∧ Sent ks r.id m := by
  rcases ht with he | ⟨hp, ⟨m', hs, hb'⟩, -⟩
  · exact .inl (h.shows_of_id hr hm (he.trans hb.id_eq))
  · have hever := (h.sent_item hs).1
    have := h.ever_id hever hm (hb'.id_eq.symm.trans hb.id_eq)
    exact .inr ⟨hp, this ▸ hs⟩

/-- The unsent text that a message was made of gives way to it. -/
theorem gone (h : Sound me ever history cache outbox sif ks) (hme : me ≠ "")
    (hf : Fits cache me (Is ks) ms) (hb : b ∈ ms) (hshow : Shows b m) (hs : Sent ks t m)
    (hr : r ∈ kept cache me ms) : r.id ≠ t := by
  intro he
  have hmem := (hf.mem_kept hr).1
  obtain ⟨hm, hkind, hsender, -⟩ := h.sent_item hs
  obtain ⟨hpend, -, htext, hne⟩ := h.pends_of_sent hs hmem he
  rcases hf.entry_cases hb with ⟨-, -, hnone⟩ | ⟨old, hold, htakes, -, hkept⟩
  · have hbtext : b.text = m.text := by rw [hshow]
    have hbkind : b.kind = .text := hshow.kind_eq.trans hkind
    have hbsender : b.sender = me := by rw [hshow]; exact hsender
    refine pendingRow_ne_none hmem hpend hne ?_
    rw [htext, ← hbtext]
    exact hnone hme hbkind hbsender
  · rcases h.taken hold hm hshow htakes with hs' | ⟨-, hs'⟩
    · exact h.alone t m hs r hmem he old hold hs'
    · have hot := h.sentOnce _ _ _ hs' hs
      exact hkept (h.row_id hmem hold (he.trans hot.symm) ▸ hr)

/-- **A batch is delivered.** What it has for the unsent is of their own sends. -/
theorem merged (h : Sound me ever history cache outbox sif (k :: rest)) (hme : me ≠ "")
    (hn : ms.Nodup) (hms : ∀ m ∈ ms, m ∈ ever) (hsend : k.task.clientToken? = none)
    (hdel : ∀ m, ¬ Deletes k m) (hbr : ∀ m, Brings k m → m ∈ ms)
    (hmem : ∀ m ∈ visible ms, m ∈ history ∨ Doomed rest m)
    (htexts : ∀ m ∈ visible ms, m.kind = .text → m.sender = me → (∀ r ∈ cache, r.id ≠ m.id) →
      ∀ r ∈ pendingRow cache m.text, Sent (k :: rest) r.id m)
    (hcap : cache.length + ((visible ms).filter fun m => ∀ r ∈ cache, r.id ≠ m.id).length
      ≤ maxCachedPerPeer) :
    Sound me ever history (appendMessages cache me ms) outbox sif rest := by
  have hvis : ∀ b ∈ visible ms, b ∈ ever := fun b hb => hms b (mem_visible.mp hb).1
  have hf : Fits cache me (Is (k :: rest)) (visible ms) :=
    h.fits (fun b hb => ⟨b, hvis b hb, shows_self⟩)
      (h.pairwise_distinct (hn.filter _) hvis)
      fun b hb hkind hsender hno r hr => ⟨b, htexts b hb hkind hsender hno r hr, shows_self⟩
  have hsent : ∀ {t m}, Sent (k :: rest) t m → Sent rest t m := Sent.tail (.inl hsend)
  have hsub : ∀ x ∈ rest, x ∈ k :: rest := fun x hx => List.mem_cons_of_mem _ hx
  have hdoom : ∀ {m}, Doomed (k :: rest) m → Doomed rest m := fun hd =>
    (doomed_cons.mp hd).resolve_left (hdel _)
  -- an entry of the new cache was kept, or is that of a message
  have hR : ∀ {r}, r ∈ appendMessages cache me ms ↔ r ∈ kept cache me (visible ms)
      ∨ ∃ b ∈ visible ms, entry cache me b = r := by
    intro r
    rw [(hf.append_perm hcap).mem_iff, List.mem_append, List.mem_map]
  have hentry : ∀ b ∈ visible ms, Shows (entry cache me b) b := fun b hb => by
    rcases hf.entry_cases hb with ⟨-, he, -⟩ | ⟨old, -, -, he, -⟩ <;> rw [he]
    · exact shows_self
    · exact shows_self.inPlaceOf
  have hstays : ∀ r ∈ cache, r ∈ appendMessages cache me ms
      ∨ ∃ b ∈ visible ms, entry cache me b = b.inPlaceOf r
        ∧ (Shows r b ∨ isPendingId r.id = true ∧ Sent (k :: rest) r.id b) := fun r hr => by
    rcases hf.kept_or_taken hr with hk | ⟨b, hb, ht, he⟩
    · exact .inl (hR.mpr (.inl hk))
    · exact .inr ⟨b, hb, he, h.taken hr (hvis b hb) shows_self ht⟩
  refine { h with
    batches := fun x hx => h.batches x (hsub x hx)
    ids := hf.append_ids hcap
    tokens := hf.append_tokens hcap h.tokens fun b hb => (h.numbered b (hvis b hb)).token
    order := appendMessages_sorted h.order
    rows := fun r hr => ?_
    covered := fun m hm => ?_
    unsent := fun item hi => ?_
    held := fun item hi r hr ht => ?_
    alone := fun t m hs r hr he r' hr' hshow => ?_
    sends := fun x hx => h.sends x (hsub x hx)
    sendsApart := (List.pairwise_cons.mp h.sendsApart).2
    sentOnce := fun t t' m hs hs' => h.sentOnce t t' m (hs.mono hsub) (hs'.mono hsub) }
  · rcases hR.mp hr with hk | ⟨b, hb, rfl⟩
    · refine (h.rows r (hf.mem_kept hk).1).imp_right ?_
      rintro ⟨m, hm, hs, hkind, hst⟩
      exact ⟨m, hm, hs, hkind, hst.imp_right hdoom⟩
    · exact .inr ⟨b, hvis b hb, hentry b hb, (mem_visible.mp hb).2, hmem b hb⟩
  · rcases covered_cons.mp (h.covered m hm) with hk | ⟨r, hr, hs⟩ | hrest
    · have hb : m ∈ visible ms := mem_visible.mpr ⟨hbr m hk, (mem_visible.mp hm).2⟩
      exact .inl ⟨_, hR.mpr (.inr ⟨m, hb, rfl⟩), hentry m hb⟩
    · rcases hstays r hr with hin | ⟨b, hb, he, hsb | ⟨hp, -⟩⟩
      · exact .inl ⟨r, hin, hs⟩
      · have hmb := h.ever_id (h.stored m (mem_visible.mp hm).1) (hvis b hb)
          (hs.id_eq.symm.trans hsb.id_eq)
        exact .inl ⟨_, hR.mpr (.inr ⟨b, hb, rfl⟩), hmb ▸ hentry b hb⟩
      · exact absurd (hs.id_eq ▸ hp) (h.not_pending (h.stored m (mem_visible.mp hm).1))
    · exact .inr hrest
  · rcases h.unsent item hi with ⟨r, hr, he⟩ | ⟨m, hs⟩
    · rcases hstays r hr with hin | ⟨b, hb, -, hsb | ⟨-, hs⟩⟩
      · exact .inl ⟨r, hin, he⟩
      · exact absurd (he.symm.trans hsb.id_eq) (h.token_ne hi (hvis b hb))
      · exact .inr ⟨b, he ▸ hsent hs⟩
    · exact .inr ⟨m, hsent hs⟩
  · rcases hR.mp hr with hk | ⟨b, hb, rfl⟩
    · refine (h.held item hi r (hf.mem_kept hk).1 ht).imp_right ?_
      rintro ⟨m, hs, hr⟩
      exact ⟨m, hsent hs, hr⟩
    · rcases hf.entry_cases hb with ⟨-, he, -⟩ | ⟨old, hold, htakes, he, -⟩
      · rw [he, (h.numbered b (hvis b hb)).token] at ht
        cases ht
      · have hot : old.clientToken = some item.clientToken := by
          rw [he] at ht
          simpa [TimelineRow.inPlaceOf, (h.numbered b (hvis b hb)).token] using ht
        have htaken := h.taken hold (hvis b hb) shows_self htakes
        refine .inr ⟨b, ?_, hentry b hb⟩
        rcases h.held item hi old hold hot with hid | ⟨m, hs, hshow⟩
        · rcases htaken with hsb | ⟨-, hs⟩
          · exact absurd (hid.symm.trans hsb.id_eq) (h.token_ne hi (hvis b hb))
          · exact hid ▸ hsent hs
        · rcases htaken with hsb | ⟨hp, -⟩
          · have hmb := h.ever_id (h.sent_item hs).1 (hvis b hb)
              (hshow.id_eq.symm.trans hsb.id_eq)
            exact hmb ▸ hsent hs
          · exact absurd (hshow.id_eq ▸ hp) (h.not_pending (h.sent_item hs).1)
  · have hs' : Sent (k :: rest) t m := hs.mono hsub
    have hpend : isPendingId t = true := by
      obtain ⟨-, -, -, item, hi, hit, -⟩ := h.sent_item hs'
      exact hit ▸ (h.items item hi).1
    -- an entry with the id of an unsent text was kept
    have hk : r ∈ kept cache me (visible ms) := by
      refine (hR.mp hr).resolve_right ?_
      rintro ⟨b, hb, hbr⟩
      rw [← he, ← hbr, (hentry b hb).id_eq] at hpend
      exact h.not_pending (hvis b hb) hpend
    rcases hR.mp hr' with hk' | ⟨b, hb, rfl⟩
    · exact h.alone t m hs' r (hf.mem_kept hk).1 he r' (hf.mem_kept hk').1 hshow
    · have hbm := h.ever_id (hvis b hb) (h.sent_item hs').1
        ((hentry b hb).id_eq.symm.trans hshow.id_eq)
      exact h.gone hme hf hb (hbm ▸ shows_self) hs' hk he

end Sound

end Merges

section Deliveries

variable {me : String} {ever history cache ms : List TimelineRow} {outbox : List TimelineItem}
  {sif : List String} {k : TimelineWorker} {ks rest : List TimelineWorker}
  {b m r : TimelineRow} {t text : String}

namespace Sound

/-- A worker that has brought nothing is gone. -/
theorem drop (h : Sound me ever history cache outbox sif (k :: rest)) (hbatch : k.batch = [])
    (hbr : ∀ m, ¬ Brings k m) (hdel : ∀ m, ¬ Deletes k m) :
    Sound me ever history cache outbox sif rest := by
  have hsent : ∀ {t m}, Sent (k :: rest) t m → Sent rest t m := Sent.tail (.inr hbatch)
  have hsub : ∀ x ∈ rest, x ∈ k :: rest := fun x hx => List.mem_cons_of_mem _ hx
  exact { h with
    batches := fun x hx => h.batches x (hsub x hx)
    rows := fun r hr => (h.rows r hr).imp_right fun ⟨m, hm, hs, hkind, hst⟩ =>
      ⟨m, hm, hs, hkind, hst.imp_right fun hd => (doomed_cons.mp hd).resolve_left (hdel m)⟩
    covered := fun m hm => (covered_cons.mp (h.covered m hm)).resolve_left (hbr m)
    unsent := fun item hi => (h.unsent item hi).imp_right fun ⟨m, hs⟩ => ⟨m, hsent hs⟩
    held := fun item hi r hr ht => (h.held item hi r hr ht).imp_right fun ⟨m, hs, hr⟩ =>
      ⟨m, hsent hs, hr⟩
    alone := fun t m hs => h.alone t m (hs.mono hsub)
    sends := fun x hx => h.sends x (hsub x hx)
    sendsApart := (List.pairwise_cons.mp h.sendsApart).2
    sentOnce := fun t t' m hs hs' => h.sentOnce t t' m (hs.mono hsub) (hs'.mono hsub) }

/-- Its token may be sent again. -/
theorem free (h : Sound me ever history cache outbox sif rest)
    (ht : ∀ x ∈ rest, x.task.clientToken? ≠ some t) :
    Sound me ever history cache outbox (sif.filter (· ≠ t)) rest :=
  { h with
    sends := fun x hx t' text htask => by
      obtain ⟨hin, hrest⟩ := h.sends x hx t' text htask
      refine ⟨List.mem_filter.mpr ⟨hin, decide_eq_true fun he => ht x hx ?_⟩, hrest⟩
      rw [htask, he]
      rfl }

/-- **The message of a send is delivered.** -/
theorem committed (h : Sound me ever history cache outbox sif (k :: rest)) (hme : me ≠ "")
    (htask : k.task = .send t text) (hbatch : k.batch = [m]) (hres : k.result = .brought [m])
    (hmem : m ∈ history ∨ Doomed rest m)
    (htexts : m.kind = .text → m.sender = me → (∀ r ∈ cache, r.id ≠ m.id) →
      ∀ r ∈ pendingRow cache m.text, Sent (k :: rest) r.id m)
    (hcap : cache.length + ((visible [m]).filter fun m => ∀ r ∈ cache, r.id ≠ m.id).length
      ≤ maxCachedPerPeer) :
    Sound me ever history (appendMessages cache me [{ m with clientToken := some t }])
      (outbox.filter (·.clientToken ≠ t)) (sif.filter (· ≠ t)) rest := by
  have htok : k.task.clientToken? = some t := by rw [htask]; rfl
  have hs : Sent (k :: rest) t m :=
    ⟨k, List.mem_cons_self, htok, hbatch ▸ List.mem_singleton_self m⟩
  obtain ⟨hm, hkind, hsender, -⟩ := h.sent_item hs
  obtain ⟨hapart, happarts⟩ := List.pairwise_cons.mp h.sendsApart
  generalize hb : ({ m with clientToken := some t } : TimelineRow) = b
  have hshow : Shows b m := by rw [← hb]; rfl
  have hbtok : b.clientToken = some t := by rw [← hb]
  have hvis : visible [b] = [b] := by simp [visible, hshow.kind_eq, hkind]
  have hvism : visible [m] = [m] := by simp [visible, hkind]
  have hcap' : cache.length + ((visible [b]).filter fun m => ∀ r ∈ cache, r.id ≠ m.id).length
      ≤ maxCachedPerPeer := by
    rw [hvism] at hcap
    rw [hvis]
    have hlen : ([b].filter fun x => decide (∀ r ∈ cache, r.id ≠ x.id)).length
        = ([m].filter fun x => decide (∀ r ∈ cache, r.id ≠ x.id)).length := by
      simp only [List.filter_cons, List.filter_nil, hshow.id_eq]
      split <;> rfl
    rw [hlen]
    exact hcap
  have hf : Fits cache me (Is (k :: rest)) (visible [b]) := by
    rw [hvis]
    refine h.fits (fun b' hb' => ?_) (List.pairwise_singleton _ _) fun b' hb' hbk hbs hno r hr => ?_
    · rw [List.mem_singleton.mp hb']
      exact ⟨m, hm, hshow⟩
    · rw [List.mem_singleton.mp hb'] at hno hr ⊢
      refine ⟨m, htexts hkind hsender (hshow.id_eq ▸ hno) r ?_, hshow⟩
      have htext : b.text = m.text := by rw [hshow]
      exact htext ▸ hr
  have hbvis : b ∈ visible [b] := by rw [hvis]; exact List.mem_singleton_self b
  have hentry : Shows (entry cache me b) m := by
    rcases hf.entry_cases hbvis with ⟨-, he, -⟩ | ⟨old, -, -, he, -⟩ <;> rw [he]
    · exact hshow
    · exact hshow.inPlaceOf
  have hetok : (entry cache me b).clientToken = some t := by
    rcases hf.entry_cases hbvis with ⟨-, he, -⟩ | ⟨old, -, -, he, -⟩ <;> rw [he]
    · exact hbtok
    · simp [TimelineRow.inPlaceOf, hbtok]
  have hR : ∀ {r}, r ∈ appendMessages cache me [b] ↔
      r ∈ kept cache me (visible [b]) ∨ r = entry cache me b := by
    intro r
    rw [(hf.append_perm hcap').mem_iff, hvis]
    simp
  have hkept : ∀ r ∈ kept cache me (visible [b]), r ∈ cache ∧ r.id ≠ m.id ∧ r.id ≠ t :=
    fun r hr => ⟨(hf.mem_kept hr).1, hshow.id_eq ▸ (hf.mem_kept hr).2 b hbvis,
      h.gone hme hf hbvis hshow hs hr⟩
  have hstays : ∀ r ∈ cache, r ∈ appendMessages cache me [b] ∨ Shows r m ∨ r.id = t := by
    intro r hr
    rcases hf.kept_or_taken hr with hk | ⟨b', hb', htakes, -⟩
    · exact .inl (hR.mpr (.inl hk))
    · rw [hvis] at hb'
      rw [List.mem_singleton.mp hb'] at htakes
      exact .inr ((h.taken hr hm hshow htakes).imp_right fun hs' => h.sentOnce _ _ _ hs'.2 hs)
  have hother : ∀ {t' m'}, t' ≠ t → Sent (k :: rest) t' m' → Sent rest t' m' := fun hne hs' =>
    (sent_cons.mp hs').resolve_left fun ht' => hne (Option.some.inj (ht'.1.symm.trans htok))
  have hsub : ∀ x ∈ rest, x ∈ k :: rest := fun x hx => List.mem_cons_of_mem _ hx
  have hne : ∀ {t' m'}, Sent rest t' m' → t' ≠ t := by
    rintro t' m' ⟨x, hx, hxt, -⟩ he
    exact hapart x hx t htok (he ▸ hxt)
  have hdoom : ∀ {m}, Doomed (k :: rest) m → Doomed rest m := fun hd =>
    (doomed_cons.mp hd).resolve_left (not_deletes (by rw [hres]; simp))
  have hitem : ∀ {item}, item ∈ outbox.filter (·.clientToken ≠ t) ↔
      item ∈ outbox ∧ item.clientToken ≠ t := by simp
  refine Sound.mk h.numbered h.distinct h.nodup h.stored (fun x hx => h.batches x (hsub x hx))
    (hf.append_ids hcap') ?tokens (appendMessages_sorted h.order) (fun r hr => ?rows)
    (fun m' hm' => ?covered) (fun item hi => ?unsent) (fun item hi r hr ht => ?held)
    (fun t' m' hs' r hr he r' hr' hshow' => ?alone) (fun item hi => h.items item (hitem.mp hi).1)
    (h.itemsApart.filter _) (fun x hx t' text' hxt => ?sends) happarts
    (fun t t' m hs hs' => h.sentOnce t t' m (hs.mono hsub) (hs'.mono hsub))
  case tokens =>
    refine ((hf.append_perm hcap').pairwise_iff TokensApart.symm).mpr ?_
    rw [hvis]
    refine List.pairwise_append.mpr ⟨h.tokens.sublist Places.others_sublist,
      List.pairwise_singleton _ _, fun r hr r' hr' t' ht' ht => ?_⟩
    -- another entry with the token is that of the unsent text or of the message
    rw [List.mem_singleton.mp hr', hetok] at ht
    obtain rfl := Option.some.inj ht
    obtain ⟨hrc, hrm, hrt⟩ := hkept r (by rwa [hvis])
    obtain ⟨-, -, -, item, hi, hit, -⟩ := h.sent_item hs
    rcases h.held item hi r hrc (hit ▸ ht') with he | ⟨m', hs', hsm⟩
    · exact hrt (he.trans hit)
    · exact hrm (h.sent_eq (hit ▸ hs') hs ▸ hsm.id_eq)
  case rows =>
    rcases hR.mp hr with hk | rfl
    · obtain ⟨hrc, -, hrt⟩ := hkept r hk
      refine (h.rows r hrc).imp ?_ ?_
      · rintro ⟨item, hi, hp⟩
        exact ⟨item, hitem.mpr ⟨hi, hp.id_eq ▸ hrt⟩, hp⟩
      · rintro ⟨m, hm, hs, hkind, hst⟩
        exact ⟨m, hm, hs, hkind, hst.imp_right hdoom⟩
    · refine .inr ⟨m, hm, hentry, ?_, hmem⟩
      rw [hkind]
      simp
  case covered =>
    have hm'e := h.stored m' (mem_visible.mp hm').1
    rcases covered_cons.mp (h.covered m' hm') with hk | ⟨r, hr, hsm⟩ | hrest
    · rcases hk with hk | ⟨hk | hk, -⟩
      · rw [hbatch] at hk
        exact .inl ⟨_, hR.mpr (.inr rfl), List.mem_singleton.mp hk ▸ hentry⟩
      · rw [htask] at hk
        cases hk
      · rw [htask] at hk
        cases hk
    · rcases hstays r hr with hin | hrm | hrt
      · exact .inl ⟨r, hin, hsm⟩
      · have := h.ever_id hm'e hm (hsm.id_eq.symm.trans hrm.id_eq)
        exact .inl ⟨_, hR.mpr (.inr rfl), this ▸ hentry⟩
      · have hp := (h.pends_of_sent hs hr hrt).1
        exact absurd (hsm.id_eq ▸ hp) (h.not_pending hm'e)
    · exact .inr hrest
  case unsent =>
    obtain ⟨hi, hit⟩ := hitem.mp hi
    rcases h.unsent item hi with ⟨r, hr, he⟩ | ⟨m', hs'⟩
    · rcases hstays r hr with hin | hrm | hrt
      · exact .inl ⟨r, hin, he⟩
      · exact absurd (he.symm.trans hrm.id_eq) (h.token_ne hi hm)
      · exact absurd (he.symm.trans hrt) hit
    · exact .inr ⟨m', hother hit hs'⟩
  case held =>
    obtain ⟨hi, hit⟩ := hitem.mp hi
    rcases hR.mp hr with hk | rfl
    · refine (h.held item hi r (hkept r hk).1 ht).imp_right ?_
      rintro ⟨m', hs', hsm⟩
      exact ⟨m', hother hit hs', hsm⟩
    · exact absurd (Option.some.inj (ht.symm.trans hetok)) hit
  case alone =>
    have hs₁ := hs'.mono hsub
    have hrk : r ∈ kept cache me (visible [b]) := by
      refine (hR.mp hr).resolve_right fun hre => ?_
      obtain ⟨-, -, -, item, hi, hit, -⟩ := h.sent_item hs₁
      rw [hre] at he
      exact h.token_ne hi hm (hit.trans (he.symm.trans hentry.id_eq))
    rcases hR.mp hr' with hk' | rfl
    · exact h.alone t' m' hs₁ r (hkept r hrk).1 he r' (hkept r' hk').1 hshow'
    · have := h.ever_id hm (h.sent_item hs₁).1 (hentry.id_eq.symm.trans hshow'.id_eq)
      exact hne hs' (h.sentOnce t' t m (this ▸ hs₁) hs)
  case sends =>
    obtain ⟨hin, ⟨item, hi, hit, htext⟩, hrest⟩ := h.sends x (hsub x hx) t' text' hxt
    have hnt : t' ≠ t := fun he => hapart x hx t htok (by rw [hxt, he]; rfl)
    exact ⟨List.mem_filter.mpr ⟨hin, decide_eq_true hnt⟩,
      ⟨item, hitem.mpr ⟨hi, hit ▸ hnt⟩, hit, htext⟩, hrest⟩

/-- **A deletion is delivered**, when nothing in the cache is unsent. -/
theorem deleted {cutSeq : Nat} (h : Sound me ever history cache outbox sif (k :: rest))
    (htask : k.task = .deleteUntil cutSeq) (hres : k.result = .removed)
    (hunsent : ∀ r ∈ cache, r.seq ≠ 0)
    (hcov : ∀ m ∈ visible history, cutSeq < m.seq ∨ ∃ k ∈ rest, Brings k m) :
    Sound me ever history (cache.filter (cutSeq < ·.seq)) outbox sif rest := by
  have hbatch : k.batch = [] := by
    unfold TimelineWorker.batch
    rw [hres]
  have hbr : ∀ m, ¬ Brings k m := fun m => not_brings hbatch fun clear he => by
    rw [htask] at he
    cases he
  have hmem : ∀ {r}, r ∈ cache.filter (cutSeq < ·.seq) ↔ r ∈ cache ∧ cutSeq < r.seq := by simp
  have hsent : ∀ {t m}, Sent (k :: rest) t m → Sent rest t m := Sent.tail (.inr hbatch)
  have hsub : ∀ x ∈ rest, x ∈ k :: rest := fun x hx => List.mem_cons_of_mem _ hx
  refine { h with
    batches := fun x hx => h.batches x (hsub x hx)
    ids := h.ids.filter _
    tokens := h.tokens.filter _
    order := h.order.filter _
    rows := fun r hr => ?_
    covered := fun m hm => ?_
    unsent := fun item hi => ?_
    held := fun item hi r hr ht => (h.held item hi r (hmem.mp hr).1 ht).imp_right
      fun ⟨m, hs, hsm⟩ => ⟨m, hsent hs, hsm⟩
    alone := fun t m hs r hr he r' hr' => h.alone t m (hs.mono hsub) r (hmem.mp hr).1 he r'
      (hmem.mp hr').1
    sends := fun x hx => h.sends x (hsub x hx)
    sendsApart := (List.pairwise_cons.mp h.sendsApart).2
    sentOnce := fun t t' m hs hs' => h.sentOnce t t' m (hs.mono hsub) (hs'.mono hsub) }
  · obtain ⟨hr, hlt⟩ := hmem.mp hr
    refine (h.rows r hr).imp_right fun ⟨m, hm, hs, hkind, hst⟩ => ⟨m, hm, hs, hkind, ?_⟩
    refine hst.imp_right fun hd => (doomed_cons.mp hd).resolve_left fun hdel => ?_
    -- what this deletion is of is filtered out
    obtain ⟨task, result⟩ := k
    obtain rfl : task = _ := htask
    obtain rfl : result = _ := hres
    have hle : m.seq ≤ cutSeq := hdel
    exact absurd hle (Nat.not_le.mpr (hs.seq_eq ▸ hlt))
  · rcases hcov m hm with hlt | hb
    · rcases covered_cons.mp (h.covered m hm) with hk | ⟨r, hr, hs⟩ | hrest
      · exact absurd hk (hbr m)
      · exact .inl ⟨r, hmem.mpr ⟨hr, hs.seq_eq ▸ hlt⟩, hs⟩
      · exact .inr hrest
    · exact .inr hb
  · rcases h.unsent item hi with ⟨r, hr, he⟩ | ⟨m, hs⟩
    · obtain ⟨item', -, hp⟩ := h.pends_of_pending hr (he ▸ (h.items item hi).1)
      exact absurd hp.seq_eq (hunsent r hr)
    · exact .inr ⟨m, hsent hs⟩

end Sound

end Deliveries

end Timeline

namespace TimelineRow

theorem le_histMaxSeq {ms : List TimelineRow} {m : TimelineRow} (hm : m ∈ ms) :
    m.seq ≤ histMaxSeq ms :=
  (Table.le_foldl_max _ 0).2 _ (List.mem_map_of_mem hm)

end TimelineRow

namespace Timeline

open TimelineRow hiding id

section Reload

variable {me : String} {ever history cache ms : List TimelineRow} {outbox : List TimelineItem}
  {sif : List String} {k : TimelineWorker} {ks rest : List TimelineWorker}
  {b m r : TimelineRow} {t text : String}

namespace Sound

/-- An entry with a number shows a message. -/
theorem shows_of_seq (h : Sound me ever history cache outbox sif ks) (hr : r ∈ cache)
    (hseq : r.seq ≠ 0) : ∃ m ∈ ever, Shows r m ∧ m.kind ≠ .reaction
      ∧ (m ∈ history ∨ Doomed ks m) :=
  (h.rows r hr).resolve_left fun ⟨_, _, hp⟩ => hseq hp.seq_eq

/-- **What a reload leaves**: the history, what is newer, and the texts of the outbox whose tokens
are not there. -/
theorem reload_perm (h : Sound me ever history cache outbox sif ks) (hn : ms.Nodup)
    (hms : ∀ m ∈ ms, m ∈ ever)
    (hcap : (visible ms).length + (liveNewerThanHistory cache ms).length ≤ maxCachedPerPeer) :
    (reload outbox cache me ms).Perm ((visible ms ++ liveNewerThanHistory cache ms)
      ++ (outbox.filter fun item => ∀ r ∈ visible ms ++ liveNewerThanHistory cache ms,
          r.clientToken ≠ some item.clientToken).map (ofItem · "")) := by
  have hvis : ∀ b ∈ visible ms, b ∈ ever := fun b hb => hms b (mem_visible.mp hb).1
  have hnewer : ∀ {r}, r ∈ liveNewerThanHistory cache ms ↔ r ∈ cache ∧ histMaxSeq ms < r.seq := by
    simp [liveNewerThanHistory]
  have hshows : ∀ r ∈ liveNewerThanHistory cache ms, ∃ m ∈ ever, Shows r m ∧ m.kind ≠ .reaction :=
    fun r hr => by
      obtain ⟨hrc, hlt⟩ := hnewer.mp hr
      obtain ⟨m, hm, hs, hkind, -⟩ := h.shows_of_seq hrc (by omega)
      exact ⟨m, hm, hs, hkind⟩
  have hnvis : visible (liveNewerThanHistory cache ms) = liveNewerThanHistory cache ms :=
    List.filter_eq_self.mpr fun r hr => by
      obtain ⟨m, -, hs, hkind⟩ := hshows r hr
      simpa [hs.kind_eq] using hkind
  have hnumbered : ∀ {b m : TimelineRow}, m ∈ ever → Shows b m →
      b.id ≠ "" ∧ isPendingId b.id = false ∧ b.seq ≠ 0 := fun hm hs => by
    have hnum := h.numbered _ hm
    rw [hs.id_eq, hs.seq_eq]
    exact ⟨hnum.id, hnum.pending, hnum.seq⟩
  -- the history goes into an empty cache
  have hf : Fits [] me (fun _ _ => False) (visible ms) :=
    { ids := .nil
      numbered := fun b hb => hnumbered (hvis b hb) shows_self
      distinct := h.pairwise_distinct (hn.filter _) hvis
      seqs := fun r hr => absurd hr List.not_mem_nil
      texts := fun b _ _ _ _ r hr => absurd (pendingRow_mem hr).1 List.not_mem_nil
      once := fun _ _ _ _ _ hs => hs.elim }
  have hone : (appendMessages [] me ms).Perm (visible ms) :=
    hf.append_new (fun b _ old hold => absurd hold List.not_mem_nil) (by
      have := List.length_filter_le (fun m => decide (∀ r ∈ ([] : List TimelineRow), r.id ≠ m.id))
        (visible ms)
      rw [List.length_nil]
      omega)
  have hmem : ∀ {r}, r ∈ appendMessages [] me ms ↔ r ∈ visible ms := hone.mem_iff
  -- what is newer comes beside it
  have hapart : ∀ b ∈ liveNewerThanHistory cache ms, ∀ r ∈ visible ms, r.id ≠ b.id := by
    intro b hb r hr he
    obtain ⟨m, hm, hs, -⟩ := hshows b hb
    have hrm := h.ever_id (hvis r hr) hm (he.trans hs.id_eq)
    have hle := le_histMaxSeq (mem_visible.mp hr).1
    have hlt := (hnewer.mp hb).2
    rw [hs.seq_eq, ← hrm] at hlt
    omega
  have hdistinct : (liveNewerThanHistory cache ms).Pairwise Distinct := by
    refine (h.ids.filter _).imp_of_mem fun {a b} ha hb hne => ⟨hne, fun he => hne ?_⟩
    obtain ⟨m, hm, hs, -⟩ := hshows a ha
    obtain ⟨m', hm', hs', -⟩ := hshows b hb
    have := h.ever_seq hm hm' (hs.seq_eq.symm.trans (he.trans hs'.seq_eq))
    rw [hs.id_eq, hs'.id_eq, this]
  have hf' : Fits (appendMessages [] me ms) me (fun _ _ => False)
      (visible (liveNewerThanHistory cache ms)) := by
    rw [hnvis]
    exact
      { ids := hf.append_ids (by
          have := List.length_filter_le
            (fun m => decide (∀ r ∈ ([] : List TimelineRow), r.id ≠ m.id)) (visible ms)
          rw [List.length_nil]
          omega)
        numbered := fun b hb => by
          obtain ⟨m, hm, hs, -⟩ := hshows b hb
          exact hnumbered hm hs
        distinct := hdistinct
        seqs := fun r hr b hb he => by
          have hle := le_histMaxSeq (mem_visible.mp (hmem.mp hr)).1
          have hlt := (hnewer.mp hb).2
          omega
        texts := fun b _ _ _ _ r hr => by
          obtain ⟨hr, hp, -⟩ := pendingRow_mem hr
          exact absurd hp (h.not_pending (hvis r (hmem.mp hr)))
        once := fun _ _ _ _ _ hs => hs.elim }
  have htwo : (appendMessages (appendMessages [] me ms) me (liveNewerThanHistory cache ms)).Perm
      (visible ms ++ liveNewerThanHistory cache ms) := by
    have hperm := hf'.append_new (fun b hb old hold => by
      rw [hnvis] at hb
      rintro (he | ⟨-, hfalse, -⟩)
      · exact hapart b hb old (hmem.mp hold) he
      · exact hfalse) (by
      rw [hnvis, hone.length_eq]
      have := List.length_filter_le
        (fun m => decide (∀ r ∈ appendMessages [] me ms, r.id ≠ m.id))
        (liveNewerThanHistory cache ms)
      omega)
    rw [hnvis] at hperm
    exact hperm.trans (hone.append_right _)
  refine (reinjectOutbox_perm h.itemsApart).trans ?_
  have hfilter : (outbox.filter fun item => ∀ r ∈ appendMessages (appendMessages [] me ms) me
        (liveNewerThanHistory cache ms), r.clientToken ≠ some item.clientToken)
      = outbox.filter fun item => ∀ r ∈ visible ms ++ liveNewerThanHistory cache ms,
        r.clientToken ≠ some item.clientToken :=
    List.filter_congr fun item _ => by simp only [htwo.mem_iff]
  rw [hfilter]
  exact htwo.append_right _

/-- **A load that clears the cache is delivered.** -/
theorem reloaded (h : Sound me ever history cache outbox sif (k :: rest)) (hn : ms.Nodup)
    (hms : ∀ m ∈ ms, m ∈ ever) (hsend : k.task.clientToken? = none)
    (hdel : ∀ m, ¬ Deletes k m)
    (hmem : ∀ m ∈ visible ms, m ∈ history ∨ Doomed rest m)
    (hlost : ∀ m ∈ visible history, m ∈ ms
      ∨ (histMaxSeq ms < m.seq ∧ ∃ r ∈ cache, Shows r m) ∨ ∃ k ∈ rest, Brings k m)
    (hcommit : ∀ k ∈ rest, k.task.clientToken? ≠ none → ∀ m ∈ k.batch, m ∉ ms
      ∧ ∀ r ∈ cache, Shows r m → histMaxSeq ms < m.seq → r.clientToken = k.task.clientToken?)
    (hcap : (visible ms).length + (liveNewerThanHistory cache ms).length ≤ maxCachedPerPeer) :
    Sound me ever history (reload outbox cache me ms) outbox sif rest := by
  have hperm := h.reload_perm hn hms hcap
  have hvis : ∀ b ∈ visible ms, b ∈ ever := fun b hb => hms b (mem_visible.mp hb).1
  have hnewer : ∀ {r}, r ∈ liveNewerThanHistory cache ms ↔ r ∈ cache ∧ histMaxSeq ms < r.seq := by
    simp [liveNewerThanHistory]
  have hshows : ∀ r ∈ liveNewerThanHistory cache ms, ∃ m ∈ ever, Shows r m ∧ m.kind ≠ .reaction
      ∧ (m ∈ history ∨ Doomed (k :: rest) m) := fun r hr =>
    h.shows_of_seq (hnewer.mp hr).1 (by have := (hnewer.mp hr).2; omega)
  have hdoom : ∀ {m}, Doomed (k :: rest) m → Doomed rest m := fun hd =>
    (doomed_cons.mp hd).resolve_left (hdel _)
  have hsent : ∀ {t m}, Sent (k :: rest) t m → Sent rest t m := Sent.tail (.inl hsend)
  have hsub : ∀ x ∈ rest, x ∈ k :: rest := fun x hx => List.mem_cons_of_mem _ hx
  -- neither the history nor what is newer has ids of the unsent
  have hold : ∀ r ∈ visible ms ++ liveNewerThanHistory cache ms, ∀ item ∈ outbox,
      r.id ≠ item.clientToken := by
    intro r hr item hi he
    rcases List.mem_append.mp hr with hr | hr
    · exact h.token_ne hi (hvis r hr) he.symm
    · obtain ⟨m, hm, hs, -⟩ := hshows r hr
      exact h.token_ne hi hm (he.symm.trans hs.id_eq)
  have hR : ∀ {r}, r ∈ reload outbox cache me ms ↔
      r ∈ visible ms ++ liveNewerThanHistory cache ms ∨ ∃ item ∈ outbox,
        (∀ r' ∈ visible ms ++ liveNewerThanHistory cache ms,
          r'.clientToken ≠ some item.clientToken) ∧ ofItem item "" = r := by
    intro r
    rw [hperm.mem_iff, List.mem_append, List.mem_map]
    simp only [List.mem_filter, decide_eq_true_eq, and_assoc]
  have hin : ∀ {r}, r ∈ visible ms ++ liveNewerThanHistory cache ms →
      r ∈ reload outbox cache me ms := fun hr => hR.mpr (.inl hr)
  -- an entry with a token was there before
  have htok : ∀ r ∈ visible ms ++ liveNewerThanHistory cache ms, ∀ t, r.clientToken = some t →
      r ∈ cache ∧ r ∈ liveNewerThanHistory cache ms := by
    intro r hr t ht
    rcases List.mem_append.mp hr with hr | hr
    · rw [(h.numbered r (hvis r hr)).token] at ht
      cases ht
    · exact ⟨(hnewer.mp hr).1, hr⟩
  have hmade : ∀ item ∈ outbox, ∀ r ∈ visible ms ++ liveNewerThanHistory cache ms,
      r.clientToken = some item.clientToken → ∃ m, Sent rest item.clientToken m ∧ Shows r m := by
    intro item hi r hr ht
    obtain ⟨hrc, -⟩ := htok r hr _ ht
    rcases h.held item hi r hrc ht with he | ⟨m, hs, hshow⟩
    · exact absurd he (hold r hr item hi)
    · exact ⟨m, hsent hs, hshow⟩
  refine Sound.mk h.numbered h.distinct h.nodup h.stored (fun x hx => h.batches x (hsub x hx))
    ?ids ?tokens (sortByTs_pairwise _) (fun r hr => ?rows) (fun m hm => ?covered)
    (fun item hi => ?unsent) (fun item hi r hr ht => ?held)
    (fun t m hs r hr he r' hr' hshow => ?alone) h.items h.itemsApart
    (fun x hx => h.sends x (hsub x hx)) (List.pairwise_cons.mp h.sendsApart).2
    (fun t t' m hs hs' => h.sentOnce t t' m (hs.mono hsub) (hs'.mono hsub))
  case ids =>
    refine (hperm.pairwise_iff fun hne => hne.symm).mpr (List.pairwise_append.mpr ⟨?_, ?_, ?_⟩)
    · refine List.pairwise_append.mpr ⟨(h.pairwise_distinct (hn.filter _) hvis).imp (·.1),
        h.ids.filter _, fun r hr r' hr' he => ?_⟩
      obtain ⟨m, hm, hs, -⟩ := hshows r' hr'
      have hrm := h.ever_id (hvis r hr) hm (he.trans hs.id_eq)
      have hle := le_histMaxSeq (mem_visible.mp hr).1
      have hlt := (hnewer.mp hr').2
      rw [hs.seq_eq, ← hrm] at hlt
      omega
    · exact List.pairwise_map.mpr (h.itemsApart.filter _)
    · intro r hr r' hr' he
      obtain ⟨item, hi, rfl⟩ := List.mem_map.mp hr'
      exact hold r hr item (List.mem_filter.mp hi).1 he
  case tokens =>
    refine (hperm.pairwise_iff TokensApart.symm).mpr (List.pairwise_append.mpr ⟨?_, ?_, ?_⟩)
    · refine List.pairwise_append.mpr ⟨?_, h.tokens.filter _, fun r hr r' _ t ht => ?_⟩
      · refine (h.pairwise_distinct (hn.filter _) hvis).imp_of_mem fun {a b} ha _ _ t ht => ?_
        rw [(h.numbered a (hvis a ha)).token] at ht
        cases ht
      · rw [(h.numbered r (hvis r hr)).token] at ht
        cases ht
    · refine List.pairwise_map.mpr ((h.itemsApart.filter _).imp fun hne t ht ht' => hne ?_)
      exact (Option.some.inj ht).trans (Option.some.inj ht').symm
    · intro r hr r' hr' t ht ht'
      obtain ⟨item, hi, rfl⟩ := List.mem_map.mp hr'
      have hno : ∀ r' ∈ visible ms ++ liveNewerThanHistory cache ms,
          r'.clientToken ≠ some item.clientToken := by simpa using (List.mem_filter.mp hi).2
      exact hno r hr (ht.trans ht'.symm)
  case rows =>
    rcases hR.mp hr with hr | ⟨item, hi, -, rfl⟩
    · rcases List.mem_append.mp hr with hr | hr
      · exact .inr ⟨r, hvis r hr, shows_self, (mem_visible.mp hr).2, hmem r hr⟩
      · obtain ⟨m, hm, hs, hkind, hst⟩ := hshows r hr
        exact .inr ⟨m, hm, hs, hkind, hst.imp_right hdoom⟩
    · exact .inl ⟨item, hi, rfl⟩
  case covered =>
    rcases hlost m hm with hms | ⟨hlt, r, hr, hs⟩ | hrest
    · have hmv : m ∈ visible ms := mem_visible.mpr ⟨hms, (mem_visible.mp hm).2⟩
      exact .inl ⟨m, hin (List.mem_append_left _ hmv), shows_self⟩
    · have hrn : r ∈ liveNewerThanHistory cache ms := hnewer.mpr ⟨hr, hs.seq_eq ▸ hlt⟩
      exact .inl ⟨r, hin (List.mem_append_right _ hrn), hs⟩
    · exact .inr hrest
  case unsent =>
    by_cases hno : ∀ r' ∈ visible ms ++ liveNewerThanHistory cache ms,
        r'.clientToken ≠ some item.clientToken
    · exact .inl ⟨ofItem item "", hR.mpr (.inr ⟨item, hi, hno, rfl⟩), rfl⟩
    · obtain ⟨r, hr⟩ := not_forall.mp hno
      obtain ⟨hr, ht⟩ := Classical.not_imp.mp hr
      obtain ⟨m, hs, -⟩ := hmade item hi r hr (not_not.mp ht)
      exact .inr ⟨m, hs⟩
  case held =>
    rcases hR.mp hr with hr | ⟨item', hi', -, rfl⟩
    · exact .inr (hmade item hi r hr ht)
    · exact .inl (Option.some.inj ht)
  case alone =>
    have hs' := hs.mono hsub
    obtain ⟨hm, -, -, item, hi, hit, -⟩ := h.sent_item hs'
    obtain ⟨x, hx, hxt, hxm⟩ := hs
    obtain ⟨hnot, hnew⟩ := hcommit x hx (by rw [hxt]; exact Option.some_ne_none t) m hxm
    -- the entry was put back, so no other has its token
    rcases hR.mp hr with hr | ⟨item', hi', hno, rfl⟩
    · exact hold r hr item hi (he.trans hit.symm)
    · have hte : item'.clientToken = t := he
      rcases hR.mp hr' with hr' | ⟨item'', hi'', -, rfl⟩
      · rcases List.mem_append.mp hr' with hrv | hrn
        · have := h.ever_id (hvis r' hrv) hm hshow.id_eq
          exact hnot (this ▸ (mem_visible.mp hrv).1)
        · obtain ⟨hrc, hlt⟩ := hnewer.mp hrn
          have htok' := hnew r' hrc hshow (hshow.seq_eq ▸ hlt)
          exact hno r' hr' (htok'.trans (by rw [hxt, hte]))
      · exact h.token_ne hi'' hm hshow.id_eq

end Sound

end Reload

end Timeline

end Paranoia
