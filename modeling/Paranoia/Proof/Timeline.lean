import Paranoia.Proof.TimelineDelivery

/-!
# The timeline against a rebuild

A cache that is kept up to date bit by bit is to hold what a load of the history would show, and
the outbox. It does not always. The index of unsent texts knows them by nothing else, so a message is
put over another text that is equal to its own. A deletion takes everything with a number up to its
own, and what is unsent has the number 0. A send that receives first drops what it got. What is put
behind the last entry is not sorted in, and a failure does not sort. And a reload between a push and
its delivery puts the unsent text back beside its message.

In runs that do none of this the two agree in every state without a worker, and no two entries share an
id, a number or a token in any state.
-/

namespace Paranoia

namespace Timeline

open TimelineRow hiding id

section Steps

variable {me : String} {w w' : Timeline} {k : TimelineWorker} {m : TimelineRow} {i : Nat}
  {l : TimelineLabel}

/-- What holds in a state. -/
def Good (me : String) (w : Timeline) : Prop :=
  Sound me w.ever w.history w.cache w.outbox w.sendInFlight w.workers

/-! ### The outbox -/

theorem perm_erase {ks : List TimelineWorker} (hk : ks[i]? = some k) :
    ks.Perm (k :: ks.eraseIdx i) := by
  obtain ⟨hi, rfl⟩ := List.getElem?_eq_some_iff.mp hk
  exact (List.getElem_cons_eraseIdx_perm hi).symm

theorem perm_modify {ks : List TimelineWorker} {f : TimelineWorker → TimelineWorker}
    (hk : ks[i]? = some k) : (ks.modify i f).Perm (f k :: ks.eraseIdx i) := by
  obtain ⟨hi, hget⟩ := List.getElem?_eq_some_iff.mp hk
  have hset : ks.modify i f = ks.set i (f k) := by
    refine List.ext_getElem? fun j => ?_
    rw [List.getElem?_modify, List.getElem?_set]
    by_cases he : i = j
    · subst he
      simp [hi, hget]
    · simp [he]
  rw [hset]
  exact List.set_perm_cons_eraseIdx hi _

theorem good_start {task : TimelineTask} (h : Good me w) (htask : task.clientToken? = none) :
    Good me (w.start task) :=
  h.enlist rfl (fun _ ht => ht) fun t text he => by
    have he : task = .send t text := he
    rw [he] at htask
    cases htask

theorem good_fetch (me : String) (w : Timeline) (h : Good me w) : Good me w.fetchMessages := by
  unfold fetchMessages
  split
  · exact h
  · exact good_start (w := { w with receiveInFlight := true }) h rfl

theorem good_fetchAgain (me : String) (w : Timeline) (h : Good me w) : Good me w.fetchAgain := by
  unfold fetchAgain
  split
  · exact good_fetch me { w with receiveAgain := false } h
  · exact h

theorem good_dispatch {t : String} (h : Good me w) : Good me (w.dispatchOutbox t) := by
  unfold dispatchOutbox
  split
  · exact h
  · rename_i item hfind
    have hmem := List.mem_of_find?_eq_some hfind
    have htok : item.clientToken = t := by simpa using List.find?_some hfind
    split
    · exact h
    · rename_i hnot
      refine h.enlist rfl (fun x hx => List.mem_cons_of_mem _ hx) fun t' text he => ?_
      obtain ⟨rfl, rfl⟩ : t = t' ∧ item.text = text := by simpa using he
      refine ⟨List.mem_cons_self, ⟨item, hmem, htok, rfl⟩, fun k' hk' ht => hnot ?_⟩
      -- a worker that sends it would have it in flight
      obtain ⟨text', htask⟩ := task_of_token ht
      exact (h.sends k' hk' t text' htask).1

theorem Sound.queue {ever history cache : List TimelineRow} {outbox : List TimelineItem}
    {sif : List String} {ks : List TimelineWorker} {item : TimelineItem}
    (h : Sound me ever history cache outbox sif ks) (hp : isPendingId item.clientToken = true)
    (htext : item.text ≠ "")
    (hcache : ∀ r ∈ cache, r.ts ≤ item.ts ∧ r.clientToken ≠ some item.clientToken)
    (houtbox : ∀ x ∈ outbox, x.clientToken ≠ item.clientToken) :
    Sound me ever history (cache ++ [ofItem item me]) (outbox ++ [item]) sif ks := by
  have hid : ∀ r ∈ cache, r.id ≠ item.clientToken := fun r hr he => by
    obtain ⟨x, hx, hpx⟩ := h.pends_of_pending hr (he ▸ hp)
    exact houtbox x hx (hpx.id_eq.symm.trans he)
  have hno : ∀ m, ¬ Sent ks item.clientToken m := fun m hs => by
    obtain ⟨-, -, -, x, hx, hxt, -⟩ := h.sent_item hs
    exact houtbox x hx hxt
  have hrow : ∀ {r}, r ∈ cache ++ [ofItem item me] ↔ r ∈ cache ∨ r = ofItem item me := by simp
  have hitem : ∀ {x}, x ∈ outbox ++ [item] ↔ x ∈ outbox ∨ x = item := by simp
  refine { h with
    ids := List.pairwise_append.mpr ⟨h.ids, List.pairwise_singleton _ _, fun r hr r' hr' => ?_⟩
    tokens := List.pairwise_append.mpr
      ⟨h.tokens, List.pairwise_singleton _ _, fun r hr r' hr' t ht ht' => ?_⟩
    order := List.pairwise_append.mpr ⟨h.order, List.pairwise_singleton _ _, fun r hr r' hr' => ?_⟩
    rows := fun r hr => ?_
    covered := fun m hm => (h.covered m hm).mono_rows fun r hr =>
      ⟨r, hrow.mpr (.inl hr), fun _ hs => hs⟩
    unsent := fun x hx => ?_
    held := fun x hx r hr ht => ?_
    alone := fun t m hs r hr he r' hr' hshow => ?_
    items := fun x hx => ?_
    itemsApart := List.pairwise_append.mpr
      ⟨h.itemsApart, List.pairwise_singleton _ _, fun x hx y hy => ?_⟩
    sends := fun k hk t text htask => ?_ }
  · rw [List.mem_singleton.mp hr']
    exact hid r hr
  · rw [List.mem_singleton.mp hr'] at ht'
    exact (hcache r hr).2 (ht.trans ht'.symm)
  · rw [List.mem_singleton.mp hr']
    exact (hcache r hr).1
  · rcases hrow.mp hr with hr | rfl
    · exact (h.rows r hr).imp_left fun ⟨x, hx, hpx⟩ => ⟨x, hitem.mpr (.inl hx), hpx⟩
    · exact .inl ⟨item, hitem.mpr (.inr rfl), rfl⟩
  · rcases hitem.mp hx with hx | rfl
    · exact (h.unsent x hx).imp_left fun ⟨r, hr, he⟩ => ⟨r, hrow.mpr (.inl hr), he⟩
    · exact .inl ⟨ofItem x me, hrow.mpr (.inr rfl), rfl⟩
  · rcases hitem.mp hx with hx | rfl <;> rcases hrow.mp hr with hr | rfl
    · exact h.held x hx r hr ht
    · exact absurd (Option.some.inj ht).symm (houtbox x hx)
    · exact absurd ht (hcache r hr).2
    · exact .inl rfl
  · rcases hrow.mp hr with hr | rfl
    · rcases hrow.mp hr' with hr' | rfl
      · exact h.alone t m hs r hr he r' hr' hshow
      · have hm := (h.numbered m (h.sent_item hs).1).pending
        rw [← hshow.id_eq] at hm
        exact absurd (hm.symm.trans hp) Bool.false_ne_true
    · have hte : item.clientToken = t := he
      exact hno m (hte ▸ hs)
  · rcases hitem.mp hx with hx | rfl
    · exact h.items x hx
    · exact ⟨hp, htext⟩
  · rw [List.mem_singleton.mp hy]
    exact houtbox x hx
  · obtain ⟨hin, ⟨x, hx, hxt⟩, hrest⟩ := h.sends k hk t text htask
    exact ⟨hin, ⟨x, hitem.mpr (.inl hx), hxt⟩, hrest⟩

theorem good_sendText {t text : String} {ts : Int} (h : Good me w) (hp : isPendingId t = true)
    (hc : Careful me w (.sendText t text ts)) : Good me (w.sendTextMessage me t text ts) := by
  obtain ⟨htext, hcache, houtbox⟩ := hc
  have hfilter : w.outbox.filter (·.clientToken ≠ t) = w.outbox :=
    List.filter_eq_self.mpr fun x hx => by simpa using houtbox x hx
  unfold sendTextMessage
  dsimp only
  rw [hfilter]
  have hqueue : Sound me w.ever w.history (w.cache ++ [ofItem ⟨t, text, ts, "sending"⟩ me])
      (w.outbox ++ [⟨t, text, ts, "sending"⟩]) w.sendInFlight w.workers :=
    h.queue hp htext hcache houtbox
  exact good_dispatch hqueue

theorem good_retry {t : String} (h : Good me w) : Good me (w.retrySend t) := by
  unfold retrySend
  split
  · exact good_dispatch (w := { w with cache := setStatus w.cache t "sending" })
      (h.restatus setStatus_bare rfl)
  · exact h

/-! ### The library -/

theorem mem_pull {new : List TimelineRow} {told removed : List String} :
    m ∈ (w.pull new told removed).history ↔
      (m ∈ w.history ∨ m ∈ w.pulled new told) ∧ m.id ∉ removed := by
  have hsave : m ∈ w.history ++ (w.pulled new told).filter (· ∉ w.history) ↔
      m ∈ w.history ∨ m ∈ w.pulled new told := by
    rw [List.mem_append, List.mem_filter]
    by_cases hm : m ∈ w.history <;> simp [hm]
  have heq : (w.pull new told removed).history
      = (w.history ++ (w.pulled new told).filter (· ∉ w.history)).filter (·.id ∉ removed) := rfl
  rw [heq, List.mem_filter, hsave, decide_eq_true_eq]

theorem nodup_of_distinct {l : List TimelineRow} (h : l.Pairwise Distinct) : l.Nodup :=
  h.imp fun {a b} (hd : Distinct a b) (he : a = b) => hd.1 (he ▸ rfl)

theorem mem_pulled {new : List TimelineRow} {told : List String}
    (hm : m ∈ w.pulled new told) : m ∈ w.ever ++ new :=
  (List.mem_append.mp hm).elim (fun hm => List.mem_append_left _ (List.mem_filter.mp hm).1)
    (List.mem_append_right _)

theorem nodup_pulled {new : List TimelineRow} {told : List String} (hnew : w.New new) :
    (w.pulled new told).Nodup :=
  (nodup_of_distinct hnew.2).sublist (List.filter_sublist.append_right new)

theorem nodup_pull {new : List TimelineRow} {told removed : List String} (h : Good me w)
    (hnew : w.New new) : (w.pull new told removed).history.Nodup := by
  refine List.Nodup.filter _ (List.nodup_append.mpr ⟨h.nodup, (nodup_pulled hnew).filter _, ?_⟩)
  intro a ha b hb he
  have hb : b ∉ (w.make new).history := by simpa using (List.mem_filter.mp hb).2
  exact hb (he ▸ ha)

/-- Of what is pulled the new may be brought by somebody else. -/
theorem good_pull {new : List TimelineRow} {told removed : List String} (h : Good me w)
    (hnew : w.New new)
    (hrows : ∀ m ∈ visible w.history, m.id ∈ removed →
      (∀ r ∈ w.cache, ¬ Shows r m) ∨ Doomed w.workers m)
    (hcov : ∀ m ∈ visible (w.pulled new told), m.id ∉ removed →
      Covered w.cache w.workers m) : Good me (w.pull new told removed) := by
  refine (h.make hnew.1 hnew.2).store (nodup_pull h hnew) (fun m hm => ?_) (fun m hm hnot => ?_)
    fun m hm => ?_
  · exact (mem_pull.mp hm).1.elim (fun hm => List.mem_append_left _ (h.stored m hm)) mem_pulled
  · refine hrows m hm (by_contra fun hrem => hnot (mem_pull.mpr ⟨.inl (mem_visible.mp hm).1, hrem⟩))
  · obtain ⟨hm, hkind⟩ := mem_visible.mp hm
    obtain ⟨hwas | hp, hrem⟩ := mem_pull.mp hm
    · exact .inl hwas
    · exact .inr (hcov m (mem_visible.mpr ⟨hp, hkind⟩) hrem)

/-- A worker that has nothing fails. -/
theorem good_fail (h : Good me w) (hk : w.workers[i]? = some k) (hdel : ∀ m, ¬ Deletes k m)
    (hcov : ∀ m ∈ visible w.history, Brings k m → Covered w.cache (w.workers.eraseIdx i) m)
    (hlost : ∀ t ∈ k.task.clientToken?, k.batch ≠ [] → ∃ r ∈ w.cache, r.id = t) :
    Good me (w.finish i .failed) := by
  refine Sound.perm ?_ (perm_modify hk).symm
  refine (h.perm (perm_erase hk)).finish rfl
    ⟨List.nodup_nil, fun m hm => absurd hm List.not_mem_nil⟩
    (fun m hd => absurd hd (hdel m)) (fun m hm hb => covered_cons.mpr (.inr (hcov m hm hb)))
    (fun t ht => ?_) (fun t m _ hm => absurd hm List.not_mem_nil)
    fun t text _ => ⟨fun m hm => absurd hm List.not_mem_nil, fun ms hms => by cases hms⟩
  by_cases hnil : k.batch = []
  · exact .inr (.inl hnil)
  · exact .inr (.inr (hlost t ht hnil))

/-- A worker that sends nothing brings a batch. -/
theorem good_bring {ms : List TimelineRow} (h : Good me w) (hk : w.workers[i]? = some k)
    (hsend : k.task.clientToken? = none) (hrun : k.result = .running) (hn : ms.Nodup)
    (hms : ∀ m ∈ ms, m ∈ w.ever)
    (hcov : ∀ m ∈ visible w.history, Brings k m →
      m ∈ ms ∨ Covered w.cache (w.workers.eraseIdx i) m) :
    Good me (w.finish i (.brought ms)) := by
  refine Sound.perm ?_ (perm_modify hk).symm
  refine (h.perm (perm_erase hk)).finish rfl ⟨hn, hms⟩
    (fun m hd => absurd hd (not_deletes (by rw [hrun]; simp)))
    (fun m hm hb => covered_cons.mpr ((hcov m hm hb).imp_left .inl))
    (fun t ht => ?_) (fun t m ht => ?_) fun t text ht => ?_
  · rw [hsend] at ht
    cases ht
  · rw [hsend] at ht
    cases ht
  · rw [ht] at hsend
    cases hsend

end Steps

section Runs

variable {me : String} {w w' : Timeline} {k : TimelineWorker} {m : TimelineRow} {i : Nat}
  {l : TimelineLabel}

theorem covered_erase (hk : w.workers[i]? = some k)
    (h : Covered w.cache (w.workers.eraseIdx i) m) : Covered w.cache w.workers m :=
  h.imp_right fun ⟨x, hx, hb⟩ => ⟨x, (perm_erase hk).mem_iff.mpr (List.mem_cons_of_mem _ hx), hb⟩

/-- A receiver that has its batch brings what is stored with it. -/
theorem good_receive {new : List TimelineRow} {told removed : List String} (h : Good me w)
    (hk : w.workers[i]? = some ⟨.receive, .running⟩) (hnew : w.New new)
    (hrows : ∀ m ∈ visible w.history, m.id ∈ removed →
      (∀ r ∈ w.cache, ¬ Shows r m) ∨ Doomed w.workers m) :
    Good me ((w.pull new told removed).finish i (.brought (w.pulled new told))) := by
  have hbrought : Good me ((w.make new).finish i (.brought (w.pulled new told))) :=
    good_bring (w := w.make new) (h.make hnew.1 hnew.2) hk rfl rfl (nodup_pulled hnew)
      (fun m hm => mem_pulled hm) fun m _ hb =>
        absurd hb (not_brings rfl fun clear he => TimelineTask.noConfusion he)
  refine hbrought.store (nodup_pull h hnew) (fun m hm => ?_) (fun m hm hnot => ?_) fun m hm => ?_
  · exact (mem_pull.mp hm).1.elim (fun hm => List.mem_append_left _ (h.stored m hm)) mem_pulled
  · have hrem : m.id ∈ removed :=
      by_contra fun hrem => hnot (mem_pull.mpr ⟨.inl (mem_visible.mp hm).1, hrem⟩)
    refine (hrows m hm hrem).imp_right fun ⟨x, hx, hd⟩ => ⟨x, ?_, hd⟩
    -- the receiver itself deletes nothing
    refine (perm_modify hk).mem_iff.mpr (List.mem_cons_of_mem _ ?_)
    refine (List.mem_cons.mp ((perm_erase hk).mem_iff.mp hx)).resolve_left fun he => ?_
    exact not_deletes (by rw [he]; simp) hd
  · obtain ⟨hwas | hp, -⟩ := mem_pull.mp (mem_visible.mp hm).1
    · exact .inl hwas
    · exact .inr (.inr ⟨_, (perm_modify hk).mem_iff.mpr List.mem_cons_self, .inl hp⟩)

/-- What is pushed is new. -/
theorem good_push {t text id : String} {seq : Nat} {ts : Int} (h : Good me w)
    (hk : w.workers[i]? = some ⟨.send t text, .running⟩) (hnew : w.New [textOf me text id seq ts]) :
    Good me ((w.make [textOf me text id seq ts]).finish i (.pushed (textOf me text id seq ts))) := by
  have hfresh : textOf me text id seq ts ∉ w.ever := fun hm =>
    (List.nodup_append.mp (nodup_of_distinct hnew.2)).2.2 _ hm _ (List.mem_singleton_self _) rfl
  have hmade := Sound.make h hnew.1 hnew.2
  refine Sound.perm ?_ (perm_modify hk).symm
  refine (hmade.perm (perm_erase hk)).finish rfl ⟨List.nodup_singleton _, fun m hm => ?_⟩
    (fun m hd => absurd hd (not_deletes (by simp))) (fun m _ hb => ?_)
    (fun t ht => .inr (.inl rfl)) (fun t m _ hm => .inr ⟨fun r hr hs => ?_, fun t' hs => ?_⟩)
    fun t' text' ht => ⟨fun m hm => ?_, fun ms hms => by cases hms⟩
  · exact List.mem_append_right _ hm
  · exact absurd hb (not_brings rfl fun clear he => TimelineTask.noConfusion he)
  · -- no entry shows what is new
    rw [List.mem_singleton.mp hm] at hs
    rcases h.rows r hr with ⟨item, hi, hp⟩ | ⟨m', hm', hs', -⟩
    · have hnum := (hnew.1 _ (List.mem_singleton_self _)).pending
      rw [← hs.id_eq, hp.id_eq, (h.items item hi).1] at hnum
      cases hnum
    · have hd := (List.pairwise_append.mp hnew.2).2.2 m' hm' _ (List.mem_singleton_self _)
      exact hd.1 (hs'.id_eq.symm.trans hs.id_eq)
  · rw [List.mem_singleton.mp hm] at hs
    exact hfresh ((Sound.sent_item (h.perm (perm_erase hk)) hs).1)
  · obtain ⟨rfl, rfl⟩ : t = t' ∧ text = text' := by simpa using ht
    rw [List.mem_singleton.mp hm]
    exact ⟨rfl, rfl, rfl⟩

/-- **The library keeps it.** -/
theorem good_work {o : WorkOutcome} (h : Good me w)
    (hc : ∀ k ∈ w.workers[i]?, w.CarefulWork (w.workers.eraseIdx i) k o)
    (hstep : w.work me i o = some w') : Good me w' := by
  obtain ⟨k, hk, hw⟩ := Option.bind_eq_some_iff.mp hstep
  clear hstep
  replace hc := hc k hk
  have herase : ∀ {m}, Covered w.cache (w.workers.eraseIdx i) m → Covered w.cache w.workers m :=
    covered_erase hk
  split at hw
  · -- it fails, and what it would have brought is brought by others
    obtain rfl := Option.some.inj hw
    exact good_fail h hk (fun m => not_deletes (by simp)) (fun m hm _ => hc.1 m hm) hc.2
  · obtain rfl := Option.some.inj hw
    exact good_fail h hk (fun m => not_deletes (by simp)) (fun m hm _ => hc.1 m hm) hc.2
  · rename_i t text new told removed ok
    split at hw
    · rename_i hnew
      obtain rfl := Option.some.inj hw
      have hpull : Good me (w.pull new told removed) := good_pull h hnew hc.1 fun m hm hrem =>
        herase ((hc.2.resolve_left fun hr => TimelineTask.noConfusion hr.1) m hm hrem)
      cases ok with
      | true => exact hpull
      | false =>
          refine good_fail (w := w.pull new told removed) hpull hk (fun m => not_deletes (by simp))
            (fun m _ hb => ?_) fun t _ hne => absurd rfl hne
          exact absurd hb (not_brings rfl fun clear he => TimelineTask.noConfusion he)
    · cases hw
  · dsimp only at hw
    split at hw
    · rename_i hnew
      obtain rfl := Option.some.inj hw
      exact good_push h hk hnew
    · cases hw
  · rename_i t text m
    obtain rfl := Option.some.inj hw
    have hmem : m ∈ w.ever := (h.batches _ (List.mem_of_getElem? hk)).2 m (List.mem_singleton_self m)
    -- the message is known to be sent, and now it is stored
    have hstored : Good me (w.save [m]) := by
      refine Sound.store h (List.nodup_append.mpr ⟨h.nodup, (List.nodup_singleton m).filter _,
        fun a ha b hb he => ?_⟩) (fun x hx => ?_) (fun x hx hnot => ?_) fun x hx => ?_
      · have hb : b ∉ w.history := by simpa using (List.mem_filter.mp hb).2
        exact hb (he ▸ ha)
      · rcases List.mem_append.mp hx with hx | hx
        · exact h.stored x hx
        · exact List.mem_singleton.mp (List.mem_filter.mp hx).1 ▸ hmem
      · exact absurd (List.mem_append_left _ (mem_visible.mp hx).1) hnot
      · rcases List.mem_append.mp (mem_visible.mp hx).1 with hx | hx
        · exact .inl hx
        · exact .inr (.inr ⟨_, List.mem_of_getElem? hk, .inl (List.mem_filter.mp hx).1⟩)
    refine Sound.perm ?_ (perm_modify hk).symm
    refine (Sound.perm hstored (perm_erase hk)).finish rfl
      (h.batches ⟨.send t text, .pushed m⟩ (List.mem_of_getElem? hk)) (fun m hd => absurd hd (not_deletes (by simp)))
      (fun m _ hb => covered_cons.mpr (.inl (.inl ?_))) (fun t ht => .inl rfl)
      (fun t m _ hm => .inl hm) fun t' text' ht => ⟨?_, fun ms hms => ⟨m, ?_⟩⟩
    · exact hb.resolve_right fun ⟨he, _⟩ => he.elim TimelineTask.noConfusion TimelineTask.noConfusion
    · exact (h.sends ⟨.send t text, .pushed m⟩ (List.mem_of_getElem? hk) t' text' ht).2.2.1
    · exact (WorkerResult.brought.inj hms).symm
  · rename_i new told removed ok
    split at hw
    · rename_i hnew
      obtain rfl := Option.some.inj hw
      cases ok with
      | true => exact good_receive h hk hnew hc.1
      | false =>
          have hpull : Good me (w.pull new told removed) := good_pull h hnew hc.1 fun m hm hrem =>
            herase ((hc.2.resolve_left fun hr => Bool.false_ne_true hr.2) m hm hrem)
          refine good_fail (w := w.pull new told removed) hpull hk (fun m => not_deletes (by simp))
            (fun m _ hb => ?_) fun t _ hne => absurd rfl hne
          exact absurd hb (not_brings rfl fun clear he => TimelineTask.noConfusion he)
    · cases hw
  · obtain rfl := Option.some.inj hw
    refine good_bring h hk rfl rfl (h.nodup.filter _)
      (fun m hm => h.stored m (List.mem_filter.mp hm).1) fun m _ hb => ?_
    exact absurd hb (not_brings rfl fun clear he => TimelineTask.noConfusion he)
  · obtain rfl := Option.some.inj hw
    have hmem : ∀ {m now}, m ∈ w.snapshot now → m ∈ w.history := fun hm =>
      (List.mem_filter.mp ((List.perm_insertionSort _ _).mem_iff.mp (List.mem_of_mem_take hm))).1
    refine good_bring h hk rfl rfl ?_ (fun m hm => h.stored m (hmem hm)) fun m hm _ => hc m hm
    exact (((List.perm_insertionSort _ _).nodup_iff).mpr (h.nodup.filter _)).sublist
      (List.take_sublist _ _)
  · rename_i cutSeq
    obtain rfl := Option.some.inj hw
    have hdone : Good me (w.finish i .removed) := by
      refine Sound.perm ?_ (perm_modify hk).symm
      refine (h.perm (perm_erase hk)).finish rfl
        ⟨List.nodup_nil, fun m hm => absurd hm List.not_mem_nil⟩
        (fun m hd => absurd hd (not_deletes (by simp))) (fun m _ hb => ?_)
        (fun t ht => .inl rfl) (fun t m _ hm => absurd hm List.not_mem_nil)
        fun t text ht => by cases ht
      exact absurd hb (not_brings rfl fun clear he => TimelineTask.noConfusion he)
    refine Sound.store hdone (h.nodup.filter _) (fun m hm => h.stored m (List.mem_filter.mp hm).1)
      (fun m hm hnot => .inr ⟨_, (perm_modify hk).mem_iff.mpr List.mem_cons_self, ?_⟩)
      fun m hm => .inl (List.mem_filter.mp (mem_visible.mp hm).1).1
    -- what is removed is removed by this deletion
    refine Nat.not_lt.mp fun hlt => hnot (List.mem_filter.mpr ⟨(mem_visible.mp hm).1, ?_⟩)
    exact decide_eq_true hlt
  · cases hw

/-- A batch of a worker that sends nothing is delivered. -/
theorem good_append {ms : List TimelineRow} (h : Good me w) (hme : me ≠ "")
    (hk : w.workers[i]? = some k) (hres : k.result = .brought ms)
    (hsend : k.task.clientToken? = none) (hc : w.CarefulMerge me (w.workers.eraseIdx i) ms) :
    Sound me w.ever w.history (appendMessages w.cache me ms) w.outbox w.sendInFlight
      (w.workers.eraseIdx i) := by
  have hbatch : k.batch = ms := by
    unfold TimelineWorker.batch
    rw [hres]
  obtain ⟨hn, hms⟩ := h.batches k (List.mem_of_getElem? hk)
  obtain ⟨hmem, htexts, hcap⟩ := hc
  refine (h.perm (perm_erase hk)).merged hme (hbatch ▸ hn) (hbatch ▸ hms) hsend
    (fun m => not_deletes (by rw [hres]; simp)) (fun m hb => ?_) hmem
    (fun m hm hkind hsender hno r hr => ?_) hcap
  · rcases hb with hb | ⟨-, hrun⟩
    · exact hbatch ▸ hb
    · rw [hres] at hrun
      cases hrun
  · exact (htexts m hm hkind hsender hno r hr).mono fun x hx => (perm_erase hk).mem_iff.mp hx

/-- Nothing was brought. -/
theorem good_drop (h : Good me w) (hk : w.workers[i]? = some k) (hres : k.result = .failed) :
    Sound me w.ever w.history w.cache w.outbox w.sendInFlight (w.workers.eraseIdx i) := by
  have hbatch : k.batch = [] := by
    unfold TimelineWorker.batch
    rw [hres]
  refine (h.perm (perm_erase hk)).drop hbatch (fun m hb => ?_)
    fun m => not_deletes (by rw [hres]; simp)
  rcases hb with hb | ⟨-, hrun⟩
  · rw [hbatch] at hb
    exact List.not_mem_nil hb
  · rw [hres] at hrun
    cases hrun

/-- **What is delivered keeps it.** -/
theorem good_deliver (h : Good me w) (hme : me ≠ "")
    (hc : ∀ k ∈ w.workers[i]?, w.CarefulDelivery me (w.workers.eraseIdx i) k)
    (hstep : w.deliver me i = some w') : Good me w' := by
  obtain ⟨k, hk, hw⟩ := Option.bind_eq_some_iff.mp hstep
  clear hstep
  replace hc := hc k hk
  have hp := h.perm (perm_erase hk)
  have hmem := List.mem_of_getElem? hk
  unfold take at hw
  split at hw
  · -- a send has failed
    rename_i t text
    obtain rfl := Option.some.inj hw
    have hapart := (List.pairwise_cons.mp hp.sendsApart).1
    refine ((good_drop h hk rfl).free fun x hx => hapart x hx t rfl).restatus setStatus_bare ?_
    refine (List.map_map ..).trans (List.map_congr_left fun item _ => ?_)
    dsimp only [Function.comp]
    split <;> rfl
  · rename_i t text ms
    obtain rfl := Option.some.inj hw
    obtain ⟨m, rfl⟩ := (h.sends _ hmem t text rfl).2.2.2 ms rfl
    obtain ⟨hkept, htexts, hcap⟩ := hc
    have hkind := ((h.sends _ hmem t text rfl).2.2.1 m (List.mem_singleton_self m)).1
    have hvis : m ∈ visible [m] := mem_visible.mpr ⟨List.mem_singleton_self m, by rw [hkind]; simp⟩
    refine good_fetch me _ ?_
    unfold Good append
    dsimp only [List.map_cons, List.map_nil]
    exact hp.committed hme rfl rfl rfl (hkept m hvis)
      (fun hkind hsender hno r hr => (htexts m hvis hkind hsender hno r hr).mono
        fun x hx => (perm_erase hk).mem_iff.mp hx) hcap
  · obtain rfl := Option.some.inj hw
    exact good_fetchAgain me _ (good_drop h hk rfl)
  · rename_i ms
    obtain rfl := Option.some.inj hw
    refine good_fetchAgain me _ ?_
    unfold Good append
    dsimp only
    exact good_append h hme hk rfl rfl hc
  · obtain rfl := Option.some.inj hw
    exact good_drop h hk rfl
  · rename_i ms
    have happ := good_append h hme hk rfl rfl hc
    obtain rfl := Option.some.inj hw
    split
    · rename_i hnil
      rw [hnil] at happ
      exact happ
    · refine good_fetch me _ ?_
      unfold Good append
      dsimp only
      exact happ
  · obtain rfl := Option.some.inj hw
    exact good_drop h hk rfl
  · rename_i ms
    obtain rfl := Option.some.inj hw
    obtain ⟨hn, hms⟩ := h.batches _ hmem
    obtain ⟨hkept, hlost, hcommit, hcap⟩ := hc
    exact hp.reloaded hn hms rfl (fun m => not_deletes (by simp)) hkept hlost hcommit hcap
  · obtain rfl := Option.some.inj hw
    unfold Good append
    dsimp only
    exact good_append h hme hk rfl rfl hc
  · obtain rfl := Option.some.inj hw
    exact good_drop h hk rfl
  · obtain rfl := Option.some.inj hw
    exact hp.deleted rfl rfl hc.1 hc.2
  · cases hw

/-- One step. -/
theorem good_step (h : Good me w) (hme : me ≠ "") (hc : Careful me w l)
    (hs : step me w l = some w') : Good me w' := by
  cases l with
  | sendText t text ts =>
      simp only [step] at hs
      split at hs
      · rename_i hp
        obtain rfl := Option.some.inj hs
        exact good_sendText h hp hc
      · cases hs
  | retrySend t =>
      obtain rfl := Option.some.inj hs
      exact good_retry h
  | fetchMessages =>
      obtain rfl := Option.some.inj hs
      exact good_fetch me w h
  | resumePendingTransfers =>
      obtain rfl := Option.some.inj hs
      unfold resumePendingTransfers
      split
      · exact h
      · exact good_start (w := { w with resumeInFlight := true }) h rfl
  | loadHistory clearCache =>
      obtain rfl := Option.some.inj hs
      exact good_start h rfl
  | deleteMessagesUntil cutSeq =>
      obtain rfl := Option.some.inj hs
      split
      · exact h
      · exact good_start h rfl
  | work i o => exact good_work h hc hs
  | deliver i => exact good_deliver h hme hc hs

/-- The dialogue is opened. -/
theorem good_openChat {history : List TimelineRow} (hnum : ∀ m ∈ history, m.Numbered)
    (hd : history.Pairwise Distinct) : Good me (openChat history) where
  numbered := hnum
  distinct := hd
  nodup := nodup_of_distinct hd
  stored := fun _ hm => hm
  batches := fun k hk => by
    have hbatch : k.batch = [] := by
      simp only [openChat, List.mem_cons, List.not_mem_nil, or_false] at hk
      rcases hk with rfl | rfl | rfl <;> rfl
    rw [hbatch]
    exact ⟨List.nodup_nil, fun m hm => absurd hm List.not_mem_nil⟩
  ids := .nil
  tokens := .nil
  order := .nil
  rows := fun r hr => absurd hr List.not_mem_nil
  covered := fun m _ => .inr ⟨⟨.load true, .running⟩, List.mem_cons_self, .inr ⟨.inl rfl, rfl⟩⟩
  unsent := fun item hi => absurd hi List.not_mem_nil
  held := fun item hi => absurd hi List.not_mem_nil
  alone := fun t m _ r hr => absurd hr List.not_mem_nil
  items := fun item hi => absurd hi List.not_mem_nil
  itemsApart := .nil
  sends := fun k hk t text htask => by
    simp only [openChat, List.mem_cons, List.not_mem_nil, or_false] at hk
    rcases hk with rfl | rfl | rfl <;> cases htask
  sendsApart := by
    simp [openChat, TimelineTask.clientToken?]
  sentOnce := fun t t' m ⟨k, hk, ht, _⟩ => by
    simp only [openChat, List.mem_cons, List.not_mem_nil, or_false] at hk
    rcases hk with rfl | rfl | rfl <;> cases ht

/-! ### Exactly once -/

theorem countP_eq_one {p : TimelineRow → Prop} [DecidablePred p] {cache : List TimelineRow}
    {r : TimelineRow} {id : String} (hids : cache.Pairwise fun a b => a.id ≠ b.id) (hr : r ∈ cache)
    (hp : p r) (hid : ∀ r ∈ cache, p r → r.id = id) : cache.countP (fun r => p r) = 1 := by
  induction cache with
  | nil => exact absurd hr List.not_mem_nil
  | cons a l ih =>
      obtain ⟨ha, hl⟩ := List.pairwise_cons.mp hids
      rw [List.countP_cons]
      rcases List.mem_cons.mp hr with rfl | hmem
      · have hrest : l.countP (fun r => p r) = 0 := List.countP_eq_zero.mpr fun b hb hpb => by
          have hpb : p b := of_decide_eq_true hpb
          exact ha b hb ((hid r List.mem_cons_self hp).trans
            (hid b (List.mem_cons_of_mem _ hb) hpb).symm)
        simp [hrest, hp]
      · have hno : ¬ p a := fun hpa => ha r hmem ((hid a List.mem_cons_self hpa).trans
          (hid r (List.mem_cons_of_mem _ hmem) hp).symm)
        rw [ih hl hmem fun b hb => hid b (List.mem_cons_of_mem _ hb)]
        simp [hno]

/-- **It is what a rebuild would show.** -/
theorem Sound.exact (h : Good me w) : Exact w where
  ids := h.ids
  seqs := h.ids.imp_of_mem fun {a b} ha hb hne hseq he => hne (by
    obtain ⟨m, hm, hs, -⟩ := h.shows_of_seq ha hseq
    obtain ⟨m', hm', hs', -⟩ := h.shows_of_seq hb (he ▸ hseq)
    have := h.ever_seq hm hm' (hs.seq_eq.symm.trans (he.trans hs'.seq_eq))
    rw [hs.id_eq, hs'.id_eq, this])
  tokens := h.tokens.imp fun {a b} hne hsome he => by
    obtain ⟨t, ht⟩ := Option.ne_none_iff_exists'.mp hsome
    exact hne t ht (he ▸ ht)
  order := fun _ => h.order
  shown := fun hw now m hm => by
    obtain ⟨hm, hkind⟩ := mem_visible.mp hm
    have hhist : m ∈ w.history := (List.mem_filter.mp
      ((List.perm_insertionSort _ _).mem_iff.mp (List.mem_of_mem_take hm))).1
    rcases h.covered m (mem_visible.mpr ⟨hhist, hkind⟩) with ⟨r, hr, hs⟩ | ⟨k, hk, -⟩
    · exact countP_eq_one h.ids hr hs fun r _ hs => hs.id_eq
    · rw [hw] at hk
      exact absurd hk List.not_mem_nil
  unsent := fun hw item hi => by
    rcases h.unsent item hi with ⟨r, hr, he⟩ | ⟨m, k, hk, -⟩
    · obtain ⟨item', hi', hp⟩ := h.pends_of_pending hr (he ▸ (h.items item hi).1)
      obtain rfl := h.item_eq hi' hi (hp.id_eq.symm.trans he)
      exact countP_eq_one h.ids hr hp fun r _ hp => hp.id_eq
    · rw [hw] at hk
      exact absurd hk List.not_mem_nil
  only := fun hw r hr => by
    rcases h.rows r hr with hp | ⟨m, -, hs, hkind, hm | ⟨k, hk, -⟩⟩
    · exact .inr hp
    · exact .inl ⟨m, mem_visible.mpr ⟨hm, hkind⟩, hs⟩
    · rw [hw] at hk
      exact absurd hk List.not_mem_nil

end Runs

/-! ## Every run -/

/-- The account has a name, and the store keeps its messages apart. -/
structure StoredDialogue where
  me : String
  named : me ≠ ""
  history : List TimelineRow
  numbered : ∀ m ∈ history, m.Numbered
  distinct : history.Pairwise Distinct

/-- **What was put together bit by bit is what a rebuild would show**, in any run whose steps are
careful. -/
theorem timeline_exact (d : StoredDialogue) {w : Timeline}
    (hr : Lts.Reach (step d.me) (Careful d.me) (openChat d.history) w) : Exact w :=
  Sound.exact (hr.invariant (P := Good d.me) (good_openChat d.numbered d.distinct)
    fun _ _ _ _ h hok hs => good_step h d.named hok hs)

/-! ## What goes wrong -/

section Example

def fromBob (id : String) (seq : Nat) (ts : Int) : TimelineRow :=
  ⟨id, none, .text, "bob", id, seq, ts, "delivered"⟩

/-- The load, the receiver and the resumption that a chat begins with. -/
def opened : List TimelineLabel :=
  [.work 0 (.read 100), .deliver 0, .work 0 (.pull [] [] [] true), .deliver 0,
    .work 0 (.resumed []), .deliver 0]

/-- Two unsent texts are equal, and the message of the first is put over the second. -/
def equalTexts : List TimelineLabel :=
  opened ++ [.sendText "pending:txt:1:7" "hi" 1, .sendText "pending:txt:2001:7" "hi" 2001,
    .work 0 (.push "a" 1 2002), .work 0 .save, .deliver 0]

/-- A text could not be sent, and messages are deleted. -/
def deletedUnsent : List TimelineLabel :=
  opened ++ [.sendText "pending:txt:1:7" "hi" 1, .work 0 .fail, .deliver 0,
    .deleteMessagesUntil 5, .work 0 .removed, .deliver 0]

/-- A send receives a message before it pushes its own, and does not tell. -/
def receivedBySend : List TimelineLabel :=
  opened ++ [.sendText "pending:txt:1:7" "hi" 1, .work 0 (.pull [fromBob "m" 1 5] [] [] true),
    .work 0 (.push "a" 2 9), .work 0 .save, .deliver 0, .work 0 (.pull [] [] [] true), .deliver 0]

/-- The partner's clock is ahead, and a text could not be sent. -/
def clockAhead : List TimelineLabel :=
  [.work 0 (.read 100), .deliver 0, .work 0 (.pull [fromBob "m" 1 90] [] [] true), .deliver 0,
    .work 0 (.resumed []), .deliver 0, .sendText "pending:txt:50:7" "hi" 50, .work 0 .fail,
    .deliver 0]

/-- The history is read anew between the push of a message and its delivery. -/
def reloadedBetween : List TimelineLabel :=
  opened ++ [.sendText "pending:txt:1:7" "hi" 1, .work 0 (.push "a" 1 2), .work 0 .save,
    .loadHistory true, .work 1 (.read 100), .deliver 1, .deliver 0]

def reached (run : List TimelineLabel) : Timeline :=
  (Lts.exec (step "alice") (openChat []) run).getD (openChat [])

theorem timeline_differs :
    (∃ w, Lts.exec (step "alice") (openChat []) equalTexts = some w ∧ ¬ Exact w)
    ∧ (∃ w, Lts.exec (step "alice") (openChat []) deletedUnsent = some w ∧ ¬ Exact w)
    ∧ (∃ w, Lts.exec (step "alice") (openChat []) receivedBySend = some w ∧ ¬ Exact w)
    ∧ (∃ w, Lts.exec (step "alice") (openChat []) clockAhead = some w ∧ ¬ Exact w)
    ∧ ∃ w, Lts.exec (step "alice") (openChat []) reloadedBetween = some w ∧ ¬ Exact w := by
  refine ⟨⟨reached equalTexts, Lts.exec_getD (by decide +kernel), fun h => ?_⟩,
    ⟨reached deletedUnsent, Lts.exec_getD (by decide +kernel), fun h => ?_⟩,
    ⟨reached receivedBySend, Lts.exec_getD (by decide +kernel), fun h => ?_⟩,
    ⟨reached clockAhead, Lts.exec_getD (by decide +kernel), fun h => ?_⟩,
    ⟨reached reloadedBetween, Lts.exec_getD (by decide +kernel), fun h => ?_⟩⟩
  · exact absurd h.tokens (by decide +kernel)
  · exact absurd (h.unsent (by decide +kernel) ⟨"pending:txt:1:7", "hi", 1, "failed"⟩
      (by decide +kernel)) (by decide +kernel)
  · exact absurd (h.shown (by decide +kernel) 100 (fromBob "m" 1 5) (by decide +kernel))
      (by decide +kernel)
  · exact absurd (h.order (by decide +kernel)) (by decide +kernel)
  · exact absurd h.tokens (by decide +kernel)

/-- What is shown: a message that is there, one that comes, a text that fails, is tried again and
comes back from the server before its send is done, a refresh, a deletion and a reload. -/
def carefulRun : List TimelineLabel :=
  [.work 0 (.read 100), .deliver 0, .work 0 (.pull [fromBob "m2" 2 20] [] [] true), .deliver 0,
    .work 0 (.resumed []), .deliver 0, .sendText "pending:txt:30:7" "hi" 30, .work 0 .fail,
    .deliver 0, .retrySend "pending:txt:30:7", .work 0 (.push "a" 3 31), .fetchMessages,
    .work 1 (.pull [] ["a"] [] true), .deliver 1, .work 0 .save, .deliver 0,
    .work 0 (.pull [] [] [] true), .deliver 0, .loadHistory false, .work 0 (.read 100), .deliver 0,
    .deleteMessagesUntil 1, .work 0 .removed, .deliver 0, .loadHistory true, .work 0 (.read 100),
    .deliver 0]

def bobs : StoredDialogue where
  me := "alice"
  named := by decide
  history := [fromBob "m1" 1 10]
  numbered := by decide
  distinct := by decide

theorem timeline_exact_carefulRun :
    (Lts.execWhile (step "alice") (Careful "alice") (openChat [fromBob "m1" 1 10])
      carefulRun).isSome = true
    ∧ Exact ((Lts.execWhile (step "alice") (Careful "alice") (openChat [fromBob "m1" 1 10])
      carefulRun).getD (openChat [fromBob "m1" 1 10])) :=
  have h : (Lts.execWhile (step "alice") (Careful "alice") (openChat [fromBob "m1" 1 10])
      carefulRun).isSome = true := by decide +kernel
  ⟨h, timeline_exact bobs (Lts.reach_getD h)⟩

end Example

end Timeline

end Paranoia
