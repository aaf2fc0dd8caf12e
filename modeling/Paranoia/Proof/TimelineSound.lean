import Paranoia.Proof.TimelineMerge

/-!
# The cache, the history and the outbox

What is true of them while workers are in flight, and what keeps it true before a result is
delivered: statuses change, workers begin, and the library stores, removes and sends messages.
-/

namespace Paranoia

namespace Timeline

open TimelineRow hiding id

/-! ## What holds between the cache, the history and the outbox -/

/-- Each entry is of an unsent text or of a message that is stored, or was until a deletion that is
not delivered yet; each message is cached or brought by a worker; each text of the outbox has its
entry, or its message is made. -/
structure Sound (me : String) (ever history cache : List TimelineRow) (outbox : List TimelineItem)
    (sendInFlight : List String) (ks : List TimelineWorker) : Prop where
  numbered : ∀ m ∈ ever, m.Numbered
  distinct : ever.Pairwise Distinct
  nodup : history.Nodup
  stored : ∀ m ∈ history, m ∈ ever
  batches : ∀ k ∈ ks, k.batch.Nodup ∧ ∀ m ∈ k.batch, m ∈ ever
  ids : cache.Pairwise fun a b => a.id ≠ b.id
  tokens : cache.Pairwise TokensApart
  order : cache.Pairwise fun a b => a.ts ≤ b.ts
  rows : ∀ r ∈ cache, (∃ item ∈ outbox, Pends r item)
    ∨ ∃ m ∈ ever, Shows r m ∧ m.kind ≠ .reaction ∧ (m ∈ history ∨ Doomed ks m)
  covered : ∀ m ∈ visible history, Covered cache ks m
  unsent : ∀ item ∈ outbox, (∃ r ∈ cache, r.id = item.clientToken)
    ∨ ∃ m, Sent ks item.clientToken m
  held : ∀ item ∈ outbox, ∀ r ∈ cache, r.clientToken = some item.clientToken →
    r.id = item.clientToken ∨ ∃ m, Sent ks item.clientToken m ∧ Shows r m
  alone : ∀ t m, Sent ks t m → ∀ r ∈ cache, r.id = t → ∀ r' ∈ cache, ¬ Shows r' m
  items : ∀ item ∈ outbox, isPendingId item.clientToken = true ∧ item.text ≠ ""
  itemsApart : outbox.Pairwise fun a b => a.clientToken ≠ b.clientToken
  sends : ∀ k ∈ ks, ∀ t text, k.task = .send t text →
    t ∈ sendInFlight ∧ (∃ item ∈ outbox, item.clientToken = t ∧ item.text = text)
      ∧ (∀ m ∈ k.batch, m.kind = .text ∧ m.sender = me ∧ m.text = text)
      ∧ ∀ ms, k.result = .brought ms → ∃ m, ms = [m]
  sendsApart : ks.Pairwise fun k k' => ∀ t, k.task.clientToken? = some t →
    k'.task.clientToken? ≠ some t
  sentOnce : ∀ t t' m, Sent ks t m → Sent ks t' m → t = t'

section Basics

variable {me : String} {ever ever' history history' cache cache' : List TimelineRow}
  {outbox outbox' : List TimelineItem} {sif sif' : List String} {k k' : TimelineWorker}
  {ks ks' rest : List TimelineWorker} {m m' r r' : TimelineRow} {item : TimelineItem} {t t' : String}

theorem Shows.id_eq (h : Shows r m) : r.id = m.id := by rw [h]

theorem Shows.seq_eq (h : Shows r m) : r.seq = m.seq := by rw [h]

theorem Shows.kind_eq (h : Shows r m) : r.kind = m.kind := by rw [h]

theorem Shows.inPlaceOf (h : Shows r m) : Shows (r.inPlaceOf r') m := by
  unfold Shows at h ⊢
  rw [h]
  rfl

theorem shows_self : Shows m m := rfl

theorem Pends.id_eq (h : Pends r item) : r.id = item.clientToken := by rw [h]; rfl

theorem Pends.token_eq (h : Pends r item) : r.clientToken = some item.clientToken := by rw [h]; rfl

theorem Pends.seq_eq (h : Pends r item) : r.seq = 0 := by rw [h]; rfl

theorem Pends.text_eq (h : Pends r item) : r.text = item.text := by rw [h]; rfl

theorem mem_visible {l : List TimelineRow} : m ∈ visible l ↔ m ∈ l ∧ m.kind ≠ .reaction := by
  simp [visible]

theorem task_of_token {task : TimelineTask} (h : task.clientToken? = some t) :
    ∃ text, task = .send t text := by
  cases task <;> simp_all [TimelineTask.clientToken?]

theorem Sent.mono (hsub : ∀ k ∈ ks, k ∈ ks') (h : Sent ks t m) : Sent ks' t m := by
  obtain ⟨k, hk, h⟩ := h
  exact ⟨k, hsub k hk, h⟩

theorem sent_cons : Sent (k :: rest) t m ↔
    (k.task.clientToken? = some t ∧ m ∈ k.batch) ∨ Sent rest t m := by
  simp [Sent]

/-- What another worker has for it. -/
theorem Sent.tail (hk : k.task.clientToken? = none ∨ k.batch = []) (h : Sent (k :: rest) t m) :
    Sent rest t m :=
  (sent_cons.mp h).resolve_left fun ⟨ht, hm⟩ => by
    rcases hk with hk | hk
    · rw [hk] at ht
      cases ht
    · rw [hk] at hm
      exact List.not_mem_nil hm

theorem doomed_cons : Doomed (k :: rest) m ↔ Deletes k m ∨ Doomed rest m := by
  simp [Doomed]

theorem covered_cons : Covered cache (k :: rest) m ↔ Brings k m ∨ Covered cache rest m := by
  simp only [Covered, List.mem_cons, exists_eq_or_imp]
  exact or_left_comm

theorem Covered.mono_rows (hsub : ∀ r ∈ cache, ∃ r' ∈ cache', ∀ m, Shows r m → Shows r' m)
    (h : Covered cache ks m) : Covered cache' ks m :=
  h.imp_left fun ⟨r, hr, hs⟩ => by
    obtain ⟨r', hr', hs'⟩ := hsub r hr
    exact ⟨r', hr', hs' m hs⟩

/-- The order of the workers is nothing to it. -/
theorem Sound.perm (h : Sound me ever history cache outbox sif ks) (hp : ks.Perm ks') :
    Sound me ever history cache outbox sif ks' := by
  have hsent : ∀ {t m}, Sent ks' t m → Sent ks t m := Sent.mono fun k => hp.mem_iff.mpr
  have hsent' : ∀ {t m}, Sent ks t m → Sent ks' t m := Sent.mono fun k => hp.mem_iff.mp
  refine { h with
    batches := fun k hk => h.batches k (hp.mem_iff.mpr hk)
    rows := fun r hr => (h.rows r hr).imp_right fun ⟨m, hm, hs, hkind, hst⟩ =>
      ⟨m, hm, hs, hkind, hst.imp_right fun ⟨k, hk, hd⟩ => ⟨k, hp.mem_iff.mp hk, hd⟩⟩
    covered := fun m hm => (h.covered m hm).imp_right fun ⟨k, hk, hb⟩ => ⟨k, hp.mem_iff.mp hk, hb⟩
    unsent := fun item hi => (h.unsent item hi).imp_right fun ⟨m, hs⟩ => ⟨m, hsent' hs⟩
    held := fun item hi r hr ht => (h.held item hi r hr ht).imp_right fun ⟨m, hs, hr⟩ =>
      ⟨m, hsent' hs, hr⟩
    alone := fun t m hs => h.alone t m (hsent hs)
    sends := fun k hk => h.sends k (hp.mem_iff.mpr hk)
    sendsApart := (hp.pairwise_iff fun hne t ht ht' => hne t ht' ht).mp h.sendsApart
    sentOnce := fun t t' m hs hs' => h.sentOnce t t' m (hsent hs) (hsent hs') }

namespace Sound

variable (h : Sound me ever history cache outbox sif ks)
include h

theorem ever_id (hm : m ∈ ever) (hm' : m' ∈ ever) (he : m.id = m'.id) : m = m' :=
  Places.eq_of_not h.distinct (fun hd => ⟨hd.1.symm, hd.2.symm⟩) hm hm' fun hd => hd.1 he

theorem ever_seq (hm : m ∈ ever) (hm' : m' ∈ ever) (he : m.seq = m'.seq) : m = m' :=
  Places.eq_of_not h.distinct (fun hd => ⟨hd.1.symm, hd.2.symm⟩) hm hm' fun hd => hd.2 he

theorem row_id (hr : r ∈ cache) (hr' : r' ∈ cache) (he : r.id = r'.id) : r = r' :=
  Places.eq_of_not h.ids (fun hne => hne.symm) hr hr' fun hne => hne he

theorem row_token (hr : r ∈ cache) (hr' : r' ∈ cache) (ht : r.clientToken = some t)
    (ht' : r'.clientToken = some t) : r = r' :=
  Places.eq_of_not h.tokens TokensApart.symm hr hr' fun hne => hne t ht ht'

/-- The ids of messages are not those of the unsent. -/
theorem not_pending (hm : m ∈ ever) : isPendingId m.id ≠ true := by
  rw [(h.numbered m hm).pending]
  exact Bool.false_ne_true

theorem token_ne (hi : item ∈ outbox) (hm : m ∈ ever) : item.clientToken ≠ m.id := fun he =>
  h.not_pending hm (he ▸ (h.items item hi).1)

/-- An entry with the id of a message shows it. -/
theorem shows_of_id (hr : r ∈ cache) (hm : m ∈ ever) (he : r.id = m.id) : Shows r m := by
  rcases h.rows r hr with ⟨item, hi, hp⟩ | ⟨m', hm', hs, -⟩
  · exact absurd (hp.id_eq.symm.trans he) (h.token_ne hi hm)
  · exact h.ever_id hm' hm (hs.id_eq.symm.trans he) ▸ hs

/-- An entry with an id of the unsent is that of a text of the outbox. -/
theorem pends_of_pending (hr : r ∈ cache) (hp : isPendingId r.id = true) :
    ∃ item ∈ outbox, Pends r item := by
  exact (h.rows r hr).resolve_right fun ⟨m, hm, hs, _⟩ => h.not_pending hm (hs.id_eq ▸ hp)

theorem item_eq {item' : TimelineItem} (hi : item ∈ outbox) (hi' : item' ∈ outbox)
    (he : item.clientToken = item'.clientToken) : item = item' :=
  Places.eq_of_not h.itemsApart (fun hne => hne.symm) hi hi' fun hne => hne he

/-- The send of a message is of a text that is still in the outbox. -/
theorem sent_item (hs : Sent ks t m) :
    m ∈ ever ∧ m.kind = .text ∧ m.sender = me ∧ ∃ item ∈ outbox, item.clientToken = t
      ∧ item.text = m.text := by
  obtain ⟨k, hk, htok, hm⟩ := hs
  obtain ⟨text, htask⟩ := task_of_token htok
  obtain ⟨-, ⟨item, hi, hitok, hit⟩, hbatch, -⟩ := h.sends k hk t text htask
  obtain ⟨hkind, hsender, htext⟩ := hbatch m hm
  exact ⟨(h.batches k hk).2 m hm, hkind, hsender, item, hi, hitok, hit.trans htext.symm⟩

/-- A send is of one message. -/
theorem sent_eq (hs : Sent ks t m) (hs' : Sent ks t m') : m = m' := by
  obtain ⟨k, hk, htok, hm⟩ := hs
  obtain ⟨k', hk', htok', hm'⟩ := hs'
  obtain rfl : k = k' := Places.eq_of_not h.sendsApart (fun hne t ht ht' => hne t ht' ht) hk hk'
    fun hne => hne t htok htok'
  obtain ⟨text, htask⟩ := task_of_token htok
  have hone := (h.sends k hk t text htask).2.2.2
  unfold TimelineWorker.batch at hm hm'
  split at hm
  · rename_i hres
    rw [hres] at hm'
    rw [List.mem_singleton.mp hm, List.mem_singleton.mp hm']
  · rename_i ms hres
    obtain ⟨m₀, rfl⟩ := hone ms hres
    rw [hres] at hm'
    rw [List.mem_singleton.mp hm, List.mem_singleton.mp hm']
  · exact absurd hm List.not_mem_nil

/-- The entry of an unsent text that its message is made of. -/
theorem pends_of_sent (hs : Sent ks t m) (hr : r ∈ cache) (he : r.id = t) :
    isPendingId r.id = true ∧ r.clientToken = some t ∧ r.text = m.text ∧ r.text ≠ "" := by
  obtain ⟨-, -, -, item, hi, hitok, hit⟩ := h.sent_item hs
  have hpend : isPendingId r.id = true := by rw [he, ← hitok]; exact (h.items item hi).1
  obtain ⟨item', hi', hp⟩ := h.pends_of_pending hr hpend
  obtain rfl : item' = item := h.item_eq hi' hi ((hp.id_eq.symm.trans he).trans hitok.symm)
  exact ⟨hpend, hitok ▸ hp.token_eq, hp.text_eq.trans hit, hp.text_eq ▸ (h.items _ hi).2⟩

end Sound

end Basics

section Changes

variable {me : String} {ever new history history' cache cache' : List TimelineRow}
  {outbox outbox' : List TimelineItem} {sif sif' : List String} {k k' : TimelineWorker}
  {ks rest : List TimelineWorker} {m r r' : TimelineRow} {item item' : TimelineItem} {t s : String}

/-! ### What the status is nothing to -/

def bare (r : TimelineRow) : TimelineRow := { r with status := "" }

def bareItem (item : TimelineItem) : TimelineItem := { item with status := "" }

theorem shows_iff_bare : Shows r m ↔ bare r = bare { m with clientToken := r.clientToken } := by
  cases r
  cases m
  simp [Shows, bare]

theorem pends_iff_bare : Pends r item ↔ bare r = ofItem (bareItem item) r.sender := by
  cases r
  cases item
  simp [Pends, bare, ofItem, bareItem]

theorem setStatus_bare : (setStatus cache t s).map bare = cache.map bare := by
  unfold setStatus
  split
  · refine List.ext_getElem? fun i => ?_
    simp only [List.getElem?_map, List.getElem?_modify]
    split <;> cases cache[i]? <;> rfl
  · rfl

/-- A status is changed. -/
theorem Sound.restatus (h : Sound me ever history cache outbox sif ks)
    (hc : cache'.map bare = cache.map bare) (ho : outbox'.map bareItem = outbox.map bareItem) :
    Sound me ever history cache' outbox' sif ks := by
  have hrow : ∀ r' ∈ cache', ∃ r ∈ cache, bare r = bare r' := fun r' hr' =>
    List.mem_map.mp (hc ▸ List.mem_map_of_mem hr')
  have hrow' : ∀ r ∈ cache, ∃ r' ∈ cache', bare r' = bare r := fun r hr =>
    List.mem_map.mp (hc ▸ List.mem_map_of_mem hr)
  have hitem : ∀ x ∈ outbox', ∃ y ∈ outbox, bareItem y = bareItem x := fun x hx =>
    List.mem_map.mp (ho ▸ List.mem_map_of_mem hx)
  have hitem' : ∀ x ∈ outbox, ∃ y ∈ outbox', bareItem y = bareItem x := fun x hx =>
    List.mem_map.mp (ho ▸ List.mem_map_of_mem hx)
  have hid : ∀ {a b : TimelineRow}, bare a = bare b → a.id = b.id := congrArg TimelineRow.id
  have htok : ∀ {a b : TimelineRow}, bare a = bare b → a.clientToken = b.clientToken :=
    congrArg clientToken
  have hsender : ∀ {a b : TimelineRow}, bare a = bare b → a.sender = b.sender := congrArg sender
  have hshows : ∀ {a b m : TimelineRow}, bare a = bare b → Shows a m → Shows b m :=
    fun he hs => shows_iff_bare.mpr (by rw [← he, ← htok he]; exact shows_iff_bare.mp hs)
  have hpends : ∀ {a b : TimelineRow} {x y : TimelineItem}, bare a = bare b →
      bareItem x = bareItem y → Pends a x → Pends b y :=
    fun he hi hp => pends_iff_bare.mpr (by
      rw [← he, ← hi, ← hsender he]
      exact pends_iff_bare.mp hp)
  have hkey : ∀ {x y : TimelineItem}, bareItem x = bareItem y → x.clientToken = y.clientToken :=
    congrArg TimelineItem.clientToken
  have htext : ∀ {x y : TimelineItem}, bareItem x = bareItem y → x.text = y.text :=
    congrArg TimelineItem.text
  -- what is said of pairs is said of them without their status
  have hpair : ∀ R : TimelineRow → TimelineRow → Prop,
      cache.Pairwise (fun a b => R (bare a) (bare b)) →
      cache'.Pairwise fun a b => R (bare a) (bare b) := fun R hR =>
    List.pairwise_map.mp (hc ▸ List.pairwise_map.mpr hR)
  refine { h with
    ids := hpair (fun a b => a.id ≠ b.id) h.ids
    tokens := hpair TokensApart h.tokens
    order := hpair (fun a b => a.ts ≤ b.ts) h.order
    rows := fun r' hr' => ?_
    covered := fun m hm => (h.covered m hm).mono_rows fun r hr => ?_
    unsent := fun x hx => ?_
    held := fun x hx r' hr' ht => ?_
    alone := fun t m hs r₁ hr₁ he r₂ hr₂ hshow => ?_
    items := fun x hx => ?_
    itemsApart := ?_
    sends := fun k hk t text htask => ?_ }
  · obtain ⟨r, hr, he⟩ := hrow r' hr'
    refine (h.rows r hr).imp (fun ⟨x, hx, hp⟩ => ?_) fun ⟨m, hm, hs, hrest⟩ =>
      ⟨m, hm, hshows he hs, hrest⟩
    obtain ⟨y, hy, hxy⟩ := hitem' x hx
    exact ⟨y, hy, hpends he hxy.symm hp⟩
  · obtain ⟨r', hr', he⟩ := hrow' r hr
    exact ⟨r', hr', fun m hs => hshows he.symm hs⟩
  · obtain ⟨y, hy, hxy⟩ := hitem x hx
    refine (h.unsent y hy).imp (fun ⟨r, hr, hid'⟩ => ?_) fun ⟨m, hs⟩ => ⟨m, hkey hxy ▸ hs⟩
    obtain ⟨r', hr', he⟩ := hrow' r hr
    exact ⟨r', hr', (hid he).trans (hid'.trans (hkey hxy))⟩
  · obtain ⟨y, hy, hxy⟩ := hitem x hx
    obtain ⟨r, hr, he⟩ := hrow r' hr'
    refine (h.held y hy r hr ((htok he).trans (ht.trans (by rw [hkey hxy])))).imp
      (fun hid' => (hid he).symm.trans (hid'.trans (hkey hxy))) fun ⟨m, hs, hshow⟩ =>
        ⟨m, hkey hxy ▸ hs, hshows he hshow⟩
  · obtain ⟨a, ha, hea⟩ := hrow r₁ hr₁
    obtain ⟨b, hb, heb⟩ := hrow r₂ hr₂
    exact h.alone t m hs a ha ((hid hea).trans he) b hb (hshows heb.symm hshow)
  · obtain ⟨y, hy, hxy⟩ := hitem x hx
    rw [← hkey hxy, ← htext hxy]
    exact h.items y hy
  · refine (List.pairwise_map (f := bareItem) (R := fun a b => a.clientToken ≠ b.clientToken)).mp ?_
    rw [ho]
    exact List.pairwise_map.mpr h.itemsApart
  · obtain ⟨hin, ⟨x, hx, hxt, hxtext⟩, hrest⟩ := h.sends k hk t text htask
    obtain ⟨y, hy, hxy⟩ := hitem' x hx
    exact ⟨hin, ⟨y, hy, (hkey hxy).trans hxt, (htext hxy).trans hxtext⟩, hrest⟩

/-! ### Workers begin -/

theorem batch_running (hrun : k.result = .running) : k.batch = [] := by
  unfold TimelineWorker.batch
  rw [hrun]

theorem not_deletes (hres : k.result ≠ .removed) : ¬ Deletes k m := by
  unfold Deletes
  split
  · exact absurd rfl hres
  · exact id

theorem not_brings (hbatch : k.batch = []) (htask : ∀ clear, k.task ≠ .load clear) :
    ¬ Brings k m := by
  rintro (h | ⟨h | h, -⟩)
  · rw [hbatch] at h
    exact absurd h List.not_mem_nil
  · exact htask _ h
  · exact htask _ h

theorem Sound.enlist (h : Sound me ever history cache outbox sif ks) (hrun : k.result = .running)
    (hsif : ∀ t ∈ sif, t ∈ sif')
    (hsend : ∀ t text, k.task = .send t text → t ∈ sif'
      ∧ (∃ item ∈ outbox, item.clientToken = t ∧ item.text = text)
      ∧ ∀ k' ∈ ks, k'.task.clientToken? ≠ some t) :
    Sound me ever history cache outbox sif' (ks ++ [k]) := by
  have hbatch := batch_running hrun
  have hsent : ∀ {t m}, Sent (k :: ks) t m ↔ Sent ks t m := by
    intro t m
    rw [sent_cons, hbatch]
    simp
  suffices hcons : Sound me ever history cache outbox sif' (k :: ks) from
    hcons.perm (List.perm_append_singleton k ks).symm
  refine { h with
    batches := fun k' hk' => ?_
    rows := fun r hr => (h.rows r hr).imp_right fun ⟨m, hm, hs, hkind, hst⟩ =>
      ⟨m, hm, hs, hkind, hst.imp_right fun hd => doomed_cons.mpr (.inr hd)⟩
    covered := fun m hm => covered_cons.mpr (.inr (h.covered m hm))
    unsent := fun item hi => (h.unsent item hi).imp_right fun ⟨m, hs⟩ => ⟨m, hsent.mpr hs⟩
    held := fun item hi r hr ht => (h.held item hi r hr ht).imp_right fun ⟨m, hs, hr⟩ =>
      ⟨m, hsent.mpr hs, hr⟩
    alone := fun t m hs => h.alone t m (hsent.mp hs)
    sends := fun k' hk' t text htask => ?_
    sendsApart := List.pairwise_cons.mpr ⟨fun k' hk' t ht => ?_, h.sendsApart⟩
    sentOnce := fun t t' m hs hs' => h.sentOnce t t' m (hsent.mp hs) (hsent.mp hs') }
  · rcases List.mem_cons.mp hk' with rfl | hk'
    · rw [hbatch]
      exact ⟨List.nodup_nil, fun m hm => absurd hm List.not_mem_nil⟩
    · exact h.batches k' hk'
  · rcases List.mem_cons.mp hk' with rfl | hk'
    · obtain ⟨hin, hitem, -⟩ := hsend t text htask
      rw [hbatch]
      refine ⟨hin, hitem, fun m hm => absurd hm List.not_mem_nil, fun ms hms => ?_⟩
      rw [hrun] at hms
      cases hms
    · obtain ⟨hin, hrest⟩ := h.sends k' hk' t text htask
      exact ⟨hsif t hin, hrest⟩
  · obtain ⟨text, htask⟩ := task_of_token ht
    exact (hsend t text htask).2.2 k' hk'

/-! ### The library -/

theorem Sound.make (h : Sound me ever history cache outbox sif ks)
    (hnum : ∀ m ∈ new, m.Numbered) (hd : (ever ++ new).Pairwise Distinct) :
    Sound me (ever ++ new) history cache outbox sif ks :=
  { h with
    numbered := fun m hm => (List.mem_append.mp hm).elim (h.numbered m) (hnum m)
    distinct := hd
    stored := fun m hm => List.mem_append_left _ (h.stored m hm)
    batches := fun k hk => ⟨(h.batches k hk).1, fun m hm =>
      List.mem_append_left _ ((h.batches k hk).2 m hm)⟩
    rows := fun r hr => (h.rows r hr).imp_right fun ⟨m, hm, hrest⟩ =>
      ⟨m, List.mem_append_left _ hm, hrest⟩ }

/-- Messages are stored and removed. -/
theorem Sound.store (h : Sound me ever history cache outbox sif ks) (hn : history'.Nodup)
    (hst : ∀ m ∈ history', m ∈ ever)
    (hrows : ∀ m ∈ visible history, m ∉ history' → (∀ r ∈ cache, ¬ Shows r m) ∨ Doomed ks m)
    (hcov : ∀ m ∈ visible history', m ∈ history ∨ Covered cache ks m) :
    Sound me ever history' cache outbox sif ks :=
  { h with
    nodup := hn
    stored := hst
    rows := fun r hr => (h.rows r hr).imp_right fun ⟨m, hm, hs, hkind, hwas⟩ => by
      refine ⟨m, hm, hs, hkind, ?_⟩
      rcases hwas with hwas | hd
      · by_cases hmem : m ∈ history'
        · exact .inl hmem
        · exact (hrows m (mem_visible.mpr ⟨hwas, hkind⟩) hmem).elim
            (fun hnot => absurd hs (hnot r hr)) .inr
      · exact .inr hd
    covered := fun m hm => (hcov m hm).elim
      (fun hwas => h.covered m (mem_visible.mpr ⟨hwas, (mem_visible.mp hm).2⟩)) id }

/-- A worker gets on. -/
theorem Sound.finish (h : Sound me ever history cache outbox sif (k :: rest))
    (htask : k'.task = k.task) (hbatch : k'.batch.Nodup ∧ ∀ m ∈ k'.batch, m ∈ ever)
    (hdoom : ∀ m, Deletes k m → Deletes k' m)
    (hcov : ∀ m ∈ visible history, Brings k m → Covered cache (k' :: rest) m)
    (hlost : ∀ t, k.task.clientToken? = some t →
      k'.batch = k.batch ∨ k.batch = [] ∨ ∃ r ∈ cache, r.id = t)
    (hnew : ∀ t m, k.task.clientToken? = some t → m ∈ k'.batch → m ∈ k.batch
      ∨ (∀ r ∈ cache, ¬ Shows r m) ∧ ∀ t', ¬ Sent (k :: rest) t' m)
    (hshape : ∀ t text, k.task = .send t text →
      (∀ m ∈ k'.batch, m.kind = .text ∧ m.sender = me ∧ m.text = text)
        ∧ ∀ ms, k'.result = .brought ms → ∃ m, ms = [m]) :
    Sound me ever history cache outbox sif (k' :: rest) := by
  -- what the worker had is known to be sent, or its entry is still that of the unsent text
  have hsent : ∀ {t m}, Sent (k :: rest) t m →
      Sent (k' :: rest) t m ∨ ∃ r ∈ cache, r.id = t := by
    intro t m hs
    rcases sent_cons.mp hs with ⟨ht, hm⟩ | hs
    · rcases hlost t ht with heq | hnil | hrow
      · exact .inl (sent_cons.mpr (.inl ⟨htask ▸ ht, heq ▸ hm⟩))
      · rw [hnil] at hm
        exact absurd hm List.not_mem_nil
      · exact .inr hrow
    · exact .inl (sent_cons.mpr (.inr hs))
  have hback : ∀ {t m}, Sent (k' :: rest) t m → Sent (k :: rest) t m
      ∨ (∀ r ∈ cache, ¬ Shows r m) ∧ k.task.clientToken? = some t
        ∧ ∀ t', ¬ Sent (k :: rest) t' m := by
    intro t m hs
    rcases sent_cons.mp hs with ⟨ht, hm⟩ | hs
    · have ht' : k.task.clientToken? = some t := htask ▸ ht
      rcases hnew t m ht' hm with hold | ⟨hno, honce⟩
      · exact .inl (sent_cons.mpr (.inl ⟨ht', hold⟩))
      · exact .inr ⟨hno, ht', honce⟩
    · exact .inl (sent_cons.mpr (.inr hs))
  have hdoomed : ∀ {m}, Doomed (k :: rest) m → Doomed (k' :: rest) m := fun hd =>
    doomed_cons.mpr ((doomed_cons.mp hd).imp_left (hdoom _))
  refine { h with
    batches := fun x hx => ?_
    rows := fun r hr => (h.rows r hr).imp_right fun ⟨m, hm, hs, hkind, hst⟩ =>
      ⟨m, hm, hs, hkind, hst.imp_right hdoomed⟩
    covered := fun m hm => (covered_cons.mp (h.covered m hm)).elim (hcov m hm)
      fun hc => covered_cons.mpr (.inr hc)
    unsent := fun item hi => (h.unsent item hi).elim .inl fun ⟨m, hs⟩ =>
      (hsent hs).elim (fun hs => .inr ⟨m, hs⟩) .inl
    held := fun item hi r hr ht => (h.held item hi r hr ht).elim .inl fun ⟨m, hs, hshow⟩ => ?_
    alone := fun t m hs r hr he r' hr' => (hback hs).elim
      (fun hs => h.alone t m hs r hr he r' hr') fun hno => hno.1 r' hr'
    sends := fun x hx t text hxt => ?_
    sendsApart := ?_
    sentOnce := fun t t' m hs hs' => ?_ }
  · rcases List.mem_cons.mp hx with rfl | hx
    · exact hbatch
    · exact h.batches x (List.mem_cons_of_mem _ hx)
  · rcases hsent hs with hs' | ⟨r₀, hr₀, he⟩
    · exact .inr ⟨m, hs', hshow⟩
    · -- the entry of the unsent text has the token, too
      have := h.row_token hr hr₀ ht (h.pends_of_sent hs hr₀ he).2.1
      exact .inl (this ▸ he)
  · rcases List.mem_cons.mp hx with rfl | hx
    · obtain ⟨hin, hitem, -⟩ := h.sends k List.mem_cons_self t text (htask ▸ hxt)
      exact ⟨hin, hitem, hshape t text (htask ▸ hxt)⟩
    · exact h.sends x (List.mem_cons_of_mem _ hx) t text hxt
  · obtain ⟨hk, hrest⟩ := List.pairwise_cons.mp h.sendsApart
    refine List.pairwise_cons.mpr ⟨fun x hx t ht => ?_, hrest⟩
    exact hk x hx t (htask ▸ ht)
  · rcases hback hs with hs₁ | ⟨-, ht, honce⟩ <;> rcases hback hs' with hs₂ | ⟨-, ht', honce'⟩
    · exact h.sentOnce t t' m hs₁ hs₂
    · exact absurd hs₁ (honce' t)
    · exact absurd hs₂ (honce t')
    · exact Option.some.inj (ht.symm.trans ht')

end Changes

end Timeline

end Paranoia
