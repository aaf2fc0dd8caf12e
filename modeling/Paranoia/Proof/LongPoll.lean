import Paranoia.Server.LongPoll

/-!
# Nobody sleeps through a push

A long poll makes its futures before it counts a second time. A push that has finished either wakes
the futures there were, or was stored before they were made, and then the second count sees it unless
it is at or below the read position. Positions must not go down for this: an update that writes back
less than there is brings a finished push above the position of someone who is already asleep
(`slept_through`). As long as no update does, nobody waits unwoken for a push that has finished
(`nobody_sleeps`).
-/

namespace Paranoia

/-- The packet is in the store. -/
def PushPoint.Stored : PushPoint → Bool
  | .store => false
  | .failed _ => false
  | _ => true

/-- Whoever had to be woken has been. -/
def PushPoint.Announced : PushPoint → Bool
  | .respond => true
  | .done => true
  | _ => false

/-- What a count under way compares with. -/
def CountPoint.floor? : CountPoint → Option Nat
  | .position => none
  | .seek effectiveFloor => some effectiveFloor
  | .scan effectiveFloor => some effectiveFloor

namespace NotifyWorld

variable {w w' : NotifyWorld} {l : NotifyLabel} {i : Nat} {t t' : PollTask} {p : PushTask}
  {receipts : ReceiptDb}

/-! ## What a step does -/

inductive StepCase (w : NotifyWorld) : NotifyLabel → NotifyWorld → Prop where
  | push {sender recver : String} {seq : Nat} (hseq : seq < u64Size) :
      StepCase w (.push sender recver seq)
        { w with pushes := w.pushes ++ [⟨sender, recver, seq, .store⟩] }
  | pushStep {i now : Nat} {p : PushTask} {w' : NotifyWorld} (hp : w.pushes[i]? = some p)
      (h : w.stepPush i p now = some w') : StepCase w (.pushStep i now) w'
  | pushError {i : Nat} {p : PushTask} (hp : w.pushes[i]? = some p)
      (hpoint : p.point = .read ∨ ∃ state, p.point = .write state) :
      StepCase w (.pushError i) (w.setPush i p .lookup)
  | pull {username partner : String} {afterSeq toSeq : Nat} :
      StepCase w (.pull username partner afterSeq toSeq) (w.stepPull username partner afterSeq toSeq)
  | raiseStep {i now : Nat} {r : RaiseTask} {w' : NotifyWorld} (hr : w.raises[i]? = some r)
      (h : w.stepRaise i r now = some w') : StepCase w (.raiseStep i now) w'
  | notify {sender : String} {items : List NotifyItem} {longPoll : Bool} :
      StepCase w (.notify sender items longPoll)
        { w with
          polls := w.polls ++ [⟨sender, items, longPoll, [], [], .scan .first 0 .position []⟩] }
  | pollStep {i : Nat} {t : PollTask} {w' : NotifyWorld} (ht : w.polls[i]? = some t)
      (h : w.stepPoll i t = some w') : StepCase w (.pollStep i) w'
  | timeout {i : Nat} {t : PollTask} (ht : w.polls[i]? = some t) (hpoint : t.point = .wait) :
      StepCase w (.timeout i) (w.setPoll i { t with point := .scan .last 0 .position [] })
  | ended {l : NotifyLabel} {i : Nat} {t : PollTask} (ht : w.polls[i]? = some t)
      (hl : l = .pollError i ∨ l = .cancel i) :
      StepCase w l (w.setPoll i { t with point := .failed })
  | gc : StepCase w .gc w.gc

theorem step_cases (h : w.step l = some w') : w.StepCase l w' := by
  cases l with
  | push sender recver seq =>
      obtain ⟨hseq, h⟩ := Option.ite_none_right_eq_some.mp h
      cases h
      exact .push hseq
  | pushStep i now =>
      obtain ⟨p, hp, h⟩ := Option.bind_eq_some_iff.mp h
      exact .pushStep hp h
  | pushError i =>
      obtain ⟨p, hp, h⟩ := Option.bind_eq_some_iff.mp h
      unfold errorPush at h
      split at h
      · rename_i hpoint
        cases h
        exact .pushError hp (.inl hpoint)
      · rename_i state hpoint
        cases h
        exact .pushError hp (.inr ⟨state, hpoint⟩)
      · cases h
  | pull username partner afterSeq toSeq => cases h; exact .pull
  | raiseStep i now =>
      obtain ⟨r, hr, h⟩ := Option.bind_eq_some_iff.mp h
      exact .raiseStep hr h
  | notify sender items longPoll => cases h; exact .notify
  | pollStep i =>
      obtain ⟨t, ht, h⟩ := Option.bind_eq_some_iff.mp h
      exact .pollStep ht h
  | timeout i =>
      obtain ⟨t, ht, h⟩ := Option.bind_eq_some_iff.mp h
      obtain ⟨hpoint, h⟩ := Option.ite_none_right_eq_some.mp h
      cases h
      exact .timeout ht hpoint
  | pollError i =>
      obtain ⟨t, ht, h⟩ := Option.bind_eq_some_iff.mp h
      split at h
      · cases h
        exact .ended ht (.inl rfl)
      · cases h
  | cancel i =>
      obtain ⟨t, ht, h⟩ := Option.map_eq_some_iff.mp h
      cases h
      exact .ended ht (.inr rfl)
  | gc => cases h; exact .gc

/-- What a step of a push does, in cases. -/
inductive PushCase (w : NotifyWorld) (i : Nat) (p : PushTask) (now : Nat) : NotifyWorld → Prop where
  | stored {store : PacketStore String} (hpoint : p.point = .store)
      (hfree : w.store.get p.dialogue p.seq = none)
      (hstore : store = w.store.put p.dialogue p.seq p.sender) :
      PushCase w i p now ({ w with store := store }.setPush i p .read)
  | refused {message : String} (hpoint : p.point = .store) :
      PushCase w i p now (w.setPush i p (.failed message))
  | frozen (hpoint : p.point = .read)
      (hoff : (w.receipts.receiptState p.sender p.dialogue).receiptsEnabled = false) :
      PushCase w i p now (w.setPush i p .lookup)
  | read (hpoint : p.point = .read) :
      PushCase w i p now (w.setPush i p (.write (w.receipts.receiptState p.sender p.dialogue)))
  | raised {state state' : ReceiptState} (hpoint : p.point = .write state)
      (hraised : state.raised p.seq now = some state') :
      PushCase w i p now
        ({ w with receipts := w.receipts.writeReceiptState p.sender p.dialogue state' }.setPush i p
          .lookup)
  | kept {state : ReceiptState} (hpoint : p.point = .write state)
      (hoff : state.receiptsEnabled = false) : PushCase w i p now (w.setPush i p .lookup)
  | found {waker : Nat} (hpoint : p.point = .lookup) (hwaker : w.inner p.dialogue = some waker) :
      PushCase w i p now (w.setPush i p (.wake waker))
  | nobody (hpoint : p.point = .lookup) (hnone : w.inner p.dialogue = none) :
      PushCase w i p now (w.setPush i p .respond)
  | woke {waker : Nat} (hpoint : p.point = .wake waker) :
      PushCase w i p now
        ({ w with notifiers := w.notifiers.modify waker Notify.notifyWaiters }.setPush i p .respond)
  | done (hpoint : p.point = .respond) : PushCase w i p now (w.setPush i p .done)

theorem push_cases {now : Nat} (h : w.stepPush i p now = some w') : PushCase w i p now w' := by
  unfold stepPush at h
  split at h
  · rename_i hpoint
    split at h <;> cases h
    · rename_i store hpush
      obtain ⟨hfree, hstore⟩ := PacketStore.push_eq_ok.mp hpush
      exact .stored hpoint hfree hstore
    · exact .refused hpoint
  · rename_i hpoint
    cases h
    by_cases hon : (w.receipts.receiptState p.sender p.dialogue).receiptsEnabled = true
    · simp only [hon, Bool.not_true, Bool.false_eq_true, if_false]
      exact .read hpoint
    · simp only [hon, Bool.not_false, if_true]
      exact .frozen hpoint (Bool.eq_false_iff.mpr hon)
  · rename_i state hpoint
    split at h <;> cases h
    · rename_i state' hraised
      exact .raised hpoint hraised
    · rename_i hnone
      refine .kept hpoint ?_
      unfold ReceiptState.raised at hnone
      split at hnone
      · simp_all
      · cases hnone
  · rename_i hpoint
    split at h <;> cases h
    · rename_i waker hwaker
      exact .found hpoint hwaker
    · rename_i hnone
      exact .nobody hpoint hnone
  · rename_i waker hpoint
    cases h
    exact .woke hpoint
  · rename_i hpoint
    cases h
    exact .done hpoint
  · cases h
  · cases h

inductive RaiseCase (w : NotifyWorld) (i : Nat) (r : RaiseTask) (now : Nat) : NotifyWorld → Prop where
  | aside {point : RaisePoint}
      (hpoint : r.point = .read ∧
        (point = .done ∨ point = .write (w.receipts.receiptState r.username r.dialogue))
        ∨ point = .done) :
      RaiseCase w i r now (w.setRaise i r point)
  | raised {state state' : ReceiptState} (hpoint : r.point = .write state)
      (hraised : state.raised r.pulledSeq now = some state') :
      RaiseCase w i r now
        ({ w with receipts := w.receipts.writeReceiptState r.username r.dialogue state' }.setRaise i r
          .done)

theorem raise_cases {r : RaiseTask} {now : Nat} (h : w.stepRaise i r now = some w') :
    RaiseCase w i r now w' := by
  unfold stepRaise at h
  split at h
  · rename_i hpoint
    cases h
    refine .aside (.inl ⟨hpoint, ?_⟩)
    split
    · exact .inl rfl
    · exact .inr rfl
  · rename_i state hpoint
    split at h <;> cases h
    · rename_i state' hraised
      exact .raised hpoint hraised
    · exact .aside (.inr rfl)
  · cases h

/-- What a step of a long poll does, in cases. -/
inductive PollCase (w : NotifyWorld) (i : Nat) (t : PollTask) : NotifyWorld → Prop where
  | scan {phase : ScanPhase} {j : Nat} {count : CountPoint} {lit : List (String × Nat)}
      (hpoint : t.point = .scan phase j count lit) :
      PollCase w i t (w.setPoll i { t with point := w.stepScan t phase j count lit })
  | subscribe {item : NotifyItem} (hpoint : t.point = .subscribe)
      (hitem : t.items[t.wakers.length]? = some item) :
      PollCase w i t ((w.waker (t.dialogue item)).1.setPoll i
        { t with wakers := t.wakers ++ [(w.waker (t.dialogue item)).2] })
  | subscribed (hpoint : t.point = .subscribe) (hend : t.items[t.wakers.length]? = none) :
      PollCase w i t (w.setPoll i { t with point := .futures })
  | future {waker : Nat} (hpoint : t.point = .futures)
      (hwaker : t.wakers[t.notified.length]? = some waker) :
      PollCase w i t (w.setPoll i
        { t with notified := t.notified ++ [((w.notifiers[waker]?).getD .new).notified] })
  | futures (hpoint : t.point = .futures) (hend : t.wakers[t.notified.length]? = none) :
      PollCase w i t (w.setPoll i { t with point := .scan .second 0 .position [] })
  | woken (hpoint : t.point = .wait) (hwoken : w.Woken t) :
      PollCase w i t (w.setPoll i { t with point := .scan .last 0 .position [] })

theorem poll_cases (h : w.stepPoll i t = some w') : PollCase w i t w' := by
  unfold stepPoll at h
  split at h
  · rename_i phase j count lit hpoint
    cases h
    exact .scan hpoint
  · rename_i hpoint
    split at h <;> cases h
    · rename_i item hitem
      exact .subscribe hpoint hitem
    · rename_i hend
      exact .subscribed hpoint hend
  · rename_i hpoint
    split at h <;> cases h
    · rename_i waker hwaker
      exact .future hpoint hwaker
    · rename_i hend
      exact .futures hpoint hend
  · rename_i hpoint
    obtain ⟨hwoken, h⟩ := Option.ite_none_right_eq_some.mp h
    cases h
    exact .woken hpoint hwoken
  · cases h
  · cases h

/-- Taking a notifier changes the table of notifiers only. -/
theorem waker_aside (w : NotifyWorld) (d : DialogueKey) :
    (w.waker d).1.receipts = w.receipts ∧ (w.waker d).1.store = w.store
    ∧ (w.waker d).1.pushes = w.pushes ∧ (w.waker d).1.polls = w.polls := by
  unfold waker
  split <;> exact ⟨rfl, rfl, rfl, rfl⟩

/-! ## Read positions -/

/-- What is written does not put the position below what it is. -/
def KeepsPush (w : NotifyWorld) (p : PushTask) : Prop :=
  match p.point with
  | .write state => w.lastSeqOf p.sender p.dialogue ≤ max state.lastSeq p.seq
  | _ => True

def KeepsRaise (w : NotifyWorld) (r : RaiseTask) : Prop :=
  match r.point with
  | .write state => w.lastSeqOf r.username r.dialogue ≤ max state.lastSeq r.pulledSeq
  | _ => True

def KeepsPositions (w : NotifyWorld) : NotifyLabel → Prop
  | .pushStep i _ => ∀ p ∈ w.pushes[i]?, w.KeepsPush p
  | .raiseStep i _ => ∀ r ∈ w.raises[i]?, w.KeepsRaise r
  | _ => True

instance (w : NotifyWorld) (p : PushTask) : Decidable (w.KeepsPush p) := by
  unfold KeepsPush
  split <;> infer_instance

instance (w : NotifyWorld) (r : RaiseTask) : Decidable (w.KeepsRaise r) := by
  unfold KeepsRaise
  split <;> infer_instance

instance (w : NotifyWorld) (l : NotifyLabel) : Decidable (w.KeepsPositions l) := by
  unfold KeepsPositions
  split <;> infer_instance

theorem lastSeq_raised {state state' : ReceiptState} {seq now : Nat}
    (h : state.raised seq now = some state') : state'.lastSeq = max state.lastSeq seq := by
  unfold ReceiptState.raised at h
  split at h
  · cases h
  · cases h
    rfl

theorem lastSeqOf_write {db : ReceiptDb} {username username' : String} {dialogue d : DialogueKey}
    {state : ReceiptState} (hle : (db.receiptState username dialogue).lastSeq ≤ state.lastSeq) :
    (db.receiptState username' d).lastSeq
      ≤ ((db.writeReceiptState username dialogue state).receiptState username' d).lastSeq := by
  by_cases h : username' = username ∧ d = dialogue
  · obtain ⟨rfl, rfl⟩ := h
    rw [ReceiptDb.receiptState_write_self]
    exact hle
  · rw [ReceiptDb.receiptState_write_of_ne state h]

/-- Positions only rise. -/
theorem lastSeqOf_le (hok : w.KeepsPositions l) (h : w.StepCase l w') (username : String)
    (d : DialogueKey) : w.lastSeqOf username d ≤ w'.lastSeqOf username d := by
  cases h with
  | pushStep hp h =>
      cases push_cases h with
      | raised hpoint hraised =>
          have hkeep : w.KeepsPush _ := hok _ hp
          unfold KeepsPush at hkeep
          rw [hpoint] at hkeep
          refine lastSeqOf_write ?_
          rw [lastSeq_raised hraised]
          exact hkeep
      | stored => exact Nat.le_refl _
      | refused => exact Nat.le_refl _
      | frozen => exact Nat.le_refl _
      | read => exact Nat.le_refl _
      | kept => exact Nat.le_refl _
      | found => exact Nat.le_refl _
      | nobody => exact Nat.le_refl _
      | woke => exact Nat.le_refl _
      | done => exact Nat.le_refl _
  | raiseStep hr h =>
      cases raise_cases h with
      | raised hpoint hraised =>
          have hkeep : w.KeepsRaise _ := hok _ hr
          unfold KeepsRaise at hkeep
          rw [hpoint] at hkeep
          refine lastSeqOf_write ?_
          rw [lastSeq_raised hraised]
          exact hkeep
      | aside => exact Nat.le_refl _
  | pull =>
      unfold stepPull
      dsimp only
      split
      · exact Nat.le_refl _
      · split <;> exact Nat.le_refl _
  | pollStep ht h =>
      cases poll_cases h with
      | subscribe =>
          refine Nat.le_of_eq ?_
          unfold lastSeqOf setPoll
          rw [(waker_aside w _).1]
      | scan => exact Nat.le_refl _
      | subscribed => exact Nat.le_refl _
      | future => exact Nat.le_refl _
      | futures => exact Nat.le_refl _
      | woken => exact Nat.le_refl _
  | push => exact Nat.le_refl _
  | pushError => exact Nat.le_refl _
  | notify => exact Nat.le_refl _
  | timeout => exact Nat.le_refl _
  | ended => exact Nat.le_refl _
  | gc => exact Nat.le_refl _

/-! ## The invariant of a long poll -/

/-- The `k`-th future of a long poll is not ready. -/
def Asleep (w : NotifyWorld) (t : PollTask) (k : Nat) : Prop :=
  ∀ (waker : Nat) (f : Notified) (n : Notify), t.wakers[k]? = some waker →
    t.notified[k]? = some f → w.notifiers[waker]? = some n → ¬ f.Ready n

/-- No push to the dialogue of an item that has been announced counts as new. -/
def Settled (w : NotifyWorld) (t : PollTask) (item : NotifyItem) : Prop :=
  ∀ p ∈ w.pushes, p.point.Announced = true → p.dialogue = t.dialogue item →
    p.seq ≤ max item.seq (w.lastSeqOf t.sender (t.dialogue item))

/-- How far notifiers and futures have come. -/
def Shaped (t : PollTask) : Prop :=
  match t.point with
  | .scan .first _ _ _ => t.wakers = [] ∧ t.notified = []
  | .subscribe => t.wakers.length ≤ t.items.length ∧ t.notified = []
  | .futures => t.wakers.length = t.items.length ∧ t.notified.length ≤ t.items.length
  | .scan .second _ _ _ => t.wakers.length = t.items.length ∧ t.notified.length = t.items.length
  | .wait => t.wakers.length = t.items.length ∧ t.notified.length = t.items.length
  | _ => True

/-- What the second scan has found out. -/
def Scanned (w : NotifyWorld) (t : PollTask) : Prop :=
  match t.point with
  | .scan .second j count [] =>
      (∀ k item, k < j → t.items[k]? = some item → w.Asleep t k → w.Settled t item)
        ∧ ∀ floor item, count.floor? = some floor → t.items[j]? = some item →
          floor ≤ max item.seq (w.lastSeqOf t.sender (t.dialogue item))
  | .wait => ∀ k item, t.items[k]? = some item → w.Asleep t k → w.Settled t item
  | _ => True

structure PollOk (w : NotifyWorld) (t : PollTask) : Prop where
  shaped : Shaped t
  held : t.point.Over = false → ∀ (k waker : Nat), t.wakers[k]? = some waker →
    ∃ item, t.items[k]? = some item ∧ w.inner (t.dialogue item) = some waker
  known : t.point.Over = false → ∀ (k waker : Nat) (f : Notified), t.wakers[k]? = some waker →
    t.notified[k]? = some f → ∃ n, w.notifiers[waker]? = some n ∧ f.Before n
  scanned : w.Scanned t

/-- How the world may change under a long poll. -/
structure Grows (w w' : NotifyWorld) (t : PollTask) : Prop where
  inner : ∀ (d : DialogueKey) (waker : Nat), waker ∈ t.wakers → w.inner d = some waker →
    w'.inner d = some waker
  notifiers : ∀ (waker : Nat) (n : Notify), w.notifiers[waker]? = some n →
    ∃ n', w'.notifiers[waker]? = some n' ∧ n.calls ≤ n'.calls
  floor : ∀ d, w.lastSeqOf t.sender d ≤ w'.lastSeqOf t.sender d
  announced : ∀ p' ∈ w'.pushes, p'.point.Announced = true →
    (∃ p ∈ w.pushes, p.point.Announced = true ∧ p.dialogue = p'.dialogue ∧ p.seq = p'.seq)
    ∨ ∀ (waker : Nat) (n : Notify), waker ∈ t.wakers → w.inner p'.dialogue = some waker →
      w.notifiers[waker]? = some n → ∃ n', w'.notifiers[waker]? = some n' ∧ n.calls < n'.calls

theorem Asleep.of_grows {k : Nat} (hg : Grows w w' t) (h : w'.Asleep t k) : w.Asleep t k := by
  intro waker f n hwaker hf hn hready
  obtain ⟨n', hn', hle⟩ := hg.notifiers waker n hn
  exact h waker f n' hwaker hf hn' (Nat.lt_of_lt_of_le hready hle)

theorem Settled.mono {k : Nat} {item : NotifyItem} (h : w.PollOk t) (hg : Grows w w' t)
    (hover : t.point.Over = false) (hwakers : t.wakers.length = t.items.length)
    (hnotified : t.notified.length = t.items.length) (hitem : t.items[k]? = some item)
    (hasleep : w'.Asleep t k) (hs : w.Settled t item) : w'.Settled t item := by
  intro p' hp' hann hd
  have hfloor := hg.floor (t.dialogue item)
  rcases hg.announced p' hp' hann with ⟨p, hp, hpann, hpd, hpseq⟩ | hwoken
  · have := hs p hp hpann (hpd.trans hd)
    rw [hpseq] at this
    omega
  · -- the push has woken the future of this item
    exfalso
    have hk : k < t.items.length := (List.getElem?_eq_some_iff.mp hitem).1
    have hwaker : t.wakers[k]? = some t.wakers[k] := List.getElem?_eq_getElem (by omega)
    have hf : t.notified[k]? = some t.notified[k] := List.getElem?_eq_getElem (by omega)
    obtain ⟨item', hitem', hinner⟩ := h.held hover k _ hwaker
    rw [hitem] at hitem'
    cases hitem'
    obtain ⟨n, hn, hbefore⟩ := h.known hover k _ _ hwaker hf
    obtain ⟨n', hn', hlt⟩ := hwoken _ n (List.getElem_mem _) (by rw [hd]; exact hinner) hn
    exact hasleep _ _ n' hwaker hf hn' (Nat.lt_of_le_of_lt hbefore hlt)

theorem PollOk.mono (h : w.PollOk t) (hg : t.point.Over = false → Grows w w' t) : w'.PollOk t := by
  refine ⟨h.shaped, fun hover k waker hwaker => ?_, fun hover k waker f hwaker hf => ?_, ?_⟩
  · obtain ⟨item, hitem, hinner⟩ := h.held hover k waker hwaker
    exact ⟨item, hitem, (hg hover).inner _ _ (List.mem_of_getElem? hwaker) hinner⟩
  · obtain ⟨n, hn, hbefore⟩ := h.known hover k waker f hwaker hf
    obtain ⟨n', hn', hle⟩ := (hg hover).notifiers waker n hn
    exact ⟨n', hn', Nat.le_trans hbefore hle⟩
  · have hscanned := h.scanned
    have hshaped := h.shaped
    unfold Scanned at hscanned ⊢
    unfold Shaped at hshaped
    split at hscanned
    · rename_i j count hpoint
      rw [hpoint] at hshaped
      have hover : t.point.Over = false := by rw [hpoint]; rfl
      refine ⟨fun k item hk hitem hasleep => ?_, fun floor item hfloor hitem => ?_⟩
      · exact (hscanned.1 k item hk hitem (hasleep.of_grows (hg hover))).mono h (hg hover) hover
          hshaped.1 hshaped.2 hitem hasleep
      · have := hscanned.2 floor item hfloor hitem
        have := (hg hover).floor (t.dialogue item)
        omega
    · rename_i hpoint
      rw [hpoint] at hshaped
      have hover : t.point.Over = false := by rw [hpoint]; rfl
      intro k item hitem hasleep
      exact (hscanned k item hitem (hasleep.of_grows (hg hover))).mono h (hg hover) hover
        hshaped.1 hshaped.2 hitem hasleep
    · trivial

/-! ## The invariant of the world -/

structure PushOk (w : NotifyWorld) (p : PushTask) : Prop where
  stored : p.point.Stored = true → p.seq ∈ w.store.live p.dialogue
  waking : ∀ waker, p.point = .wake waker → w.inner p.dialogue = some waker

structure Watched (w : NotifyWorld) : Prop where
  valid : ∀ d waker, w.inner d = some waker → waker < w.notifiers.length
  pushes : ∀ p ∈ w.pushes, w.PushOk p
  polls : ∀ t ∈ w.polls, w.PollOk t

theorem watched_init (receipts : ReceiptDb) : (init receipts).Watched where
  valid := by simp [init]
  pushes := by simp [init]
  polls := by simp [init]

/-- What only concerns others leaves a long poll as it is. -/
theorem Grows.rfl (hinner : w'.inner = w.inner) (hnotifiers : w'.notifiers = w.notifiers)
    (hfloor : ∀ d, w.lastSeqOf t.sender d ≤ w'.lastSeqOf t.sender d)
    (hpushes : ∀ p' ∈ w'.pushes, p'.point.Announced = true →
      ∃ p ∈ w.pushes, p.point.Announced = true ∧ p.dialogue = p'.dialogue ∧ p.seq = p'.seq) :
    Grows w w' t where
  inner := fun d waker _ h => by rwa [hinner]
  notifiers := fun waker n hn => ⟨n, by rwa [hnotifiers], Nat.le_refl _⟩
  floor := hfloor
  announced := fun p' hp' hann => .inl (hpushes p' hp' hann)

/-- A push that moves on without being announced now. -/
theorem announced_setPush {point : PushPoint} (hp : w.pushes[i]? = some p)
    (h : point.Announced = true → p.point.Announced = true) :
    ∀ p' ∈ w.pushes.set i { p with point := point }, p'.point.Announced = true →
      ∃ q ∈ w.pushes, q.point.Announced = true ∧ q.dialogue = p'.dialogue ∧ q.seq = p'.seq := by
  intro p' hp' hann
  rcases List.mem_or_eq_of_mem_set hp' with hp' | rfl
  · exact ⟨p', hp', hann, Eq.refl _, Eq.refl _⟩
  · exact ⟨p, List.mem_of_getElem? hp, h hann, Eq.refl _, Eq.refl _⟩

theorem live_put_mono {store : PacketStore String} {d d' : DialogueKey} {seq seq' : Nat}
    {data : String} (h : seq' ∈ store.live d') : seq' ∈ (store.put d seq data).live d' := by
  rw [PacketStore.mem_live] at h ⊢
  obtain ⟨data', hdata⟩ := h
  by_cases hk : d' = d ∧ seq' = seq
  · obtain ⟨rfl, rfl⟩ := hk
    exact ⟨data, PacketStore.get_put_self _ _ _ _⟩
  · exact ⟨data', by rw [PacketStore.get_put_of_ne _ _ (not_and_or.mp hk)]; exact hdata⟩

theorem stored_of_announced (h : p.point.Announced = true) : p.point.Stored = true := by
  obtain ⟨sender, recver, seq, point⟩ := p
  cases point <;> first | rfl | cases h

/-- A count that finds nothing has seen every push that was announced. -/
theorem settled_of_none {item : NotifyItem} {floor : Nat} (hpushes : ∀ p ∈ w.pushes, w.PushOk p)
    (hle : floor ≤ max item.seq (w.lastSeqOf t.sender (t.dialogue item)))
    (hnone : ∀ s ∈ w.store.live (t.dialogue item), s ≤ floor) : w.Settled t item := by
  intro p hp hann hd
  have := (hpushes p hp).stored (stored_of_announced hann)
  rw [hd] at this
  exact Nat.le_trans (hnone _ this) hle

theorem countAfter_eq_zero {store : PacketStore String} {d : DialogueKey} {floor : Nat}
    (h : store.countAfter d floor = 0) : ∀ s ∈ store.live d, s ≤ floor := by
  intro s hs
  by_contra hlt
  have hmem : s ∈ (store.live d).filter (fun s => saturatingAdd floor 1 ≤ s) := by
    refine List.mem_filter.mpr ⟨hs, decide_eq_true ?_⟩
    unfold saturatingAdd
    omega
  rw [List.eq_nil_of_length_eq_zero h] at hmem
  cases hmem

theorem Scanned.stepScan {j : Nat} {count : CountPoint} {lit : List (String × Nat)}
    (hpushes : ∀ p ∈ w.pushes, w.PushOk p) (hpoint : t.point = .scan .second j count lit)
    (h : w.Scanned t) : w.Scanned { t with point := w.stepScan t .second j count lit } := by
  cases lit with
  | cons e lit =>
      -- something is new already, and stays so
      have hsome : ∀ {j' : Nat} {count' : CountPoint} {lit' : List (String × Nat)}, lit' ≠ [] →
          w.Scanned { t with point := .scan .second j' count' lit' } := by
        intro j' count' lit' hne
        cases lit' with
        | nil => exact absurd rfl hne
        | cons => trivial
      unfold NotifyWorld.stepScan
      split
      · trivial
      · split
        · exact hsome (by simp)
        · split <;> exact hsome (by simp)
  | nil =>
      unfold Scanned at h
      rw [hpoint] at h
      obtain ⟨hdone, hcount⟩ := h
      have hnext : ∀ item, t.items[j]? = some item → w.Settled t item →
          ∀ k item', k < j + 1 → t.items[k]? = some item' → w.Asleep t k → w.Settled t item' := by
        intro item hitem hsettled k item' hk hitem' hasleep
        rcases Nat.lt_succ_iff_lt_or_eq.mp hk with hk | rfl
        · exact hdone k item' hk hitem' hasleep
        · rw [hitem] at hitem'
          cases hitem'
          exact hsettled
      unfold NotifyWorld.stepScan
      split
      · rename_i hend
        intro k item hitem hasleep
        have hk : k < t.items.length := (List.getElem?_eq_some_iff.mp hitem).1
        have hj : t.items.length ≤ j := List.getElem?_eq_none_iff.mp hend
        exact hdone k item (by omega) hitem hasleep
      · rename_i item hitem
        cases count with
        | position =>
            refine ⟨hdone, fun floor item' hfloor hitem' => ?_⟩
            have hitem' : t.items[j]? = some item' := hitem'
            rw [hitem] at hitem'
            cases hitem'
            cases hfloor
            exact Nat.le_refl _
        | seek floor =>
            have hle := hcount floor item rfl hitem
            rw [stepCount]
            split
            · rename_i count' hcount'
              split at hcount' <;> cases hcount'
              exact ⟨hdone, fun floor' item' hfloor hitem' => hcount floor' item' hfloor hitem'⟩
            · rename_i n hn
              split at hn
              · rename_i hlast
                cases hn
                refine ⟨hnext item hitem (settled_of_none hpushes hle (fun s hs => ?_)),
                  fun floor' _ hfloor => by cases hfloor⟩
                exact Nat.le_trans (PacketStore.le_lastSeq hs) hlast
              · cases hn
        | scan floor =>
            have hle := hcount floor item rfl hitem
            rw [stepCount]
            dsimp only
            by_cases hzero : w.store.countAfter (t.dialogue item) floor = 0
            · rw [hzero, if_neg (Nat.lt_irrefl 0)]
              exact ⟨hnext item hitem (settled_of_none hpushes hle (countAfter_eq_zero hzero)),
                fun floor' _ hfloor => by cases hfloor⟩
            · rw [if_pos (Nat.pos_of_ne_zero hzero)]
              trivial

theorem shaped_stepScan {phase : ScanPhase} {j : Nat} {count : CountPoint}
    {lit : List (String × Nat)} (hpoint : t.point = .scan phase j count lit) (h : Shaped t) :
    Shaped { t with point := w.stepScan t phase j count lit } := by
  unfold Shaped at h
  rw [hpoint] at h
  unfold NotifyWorld.stepScan
  split
  · cases phase with
    | first =>
        unfold afterScan
        dsimp only
        split
        · trivial
        · refine ⟨?_, h.2⟩
          show t.wakers.length ≤ t.items.length
          rw [h.1]
          exact Nat.zero_le _
    | second =>
        unfold afterScan
        dsimp only
        split
        · trivial
        · exact h
    | last => trivial
  · split <;> cases phase <;> exact h

theorem PollOk.stepScan {phase : ScanPhase} {j : Nat} {count : CountPoint}
    {lit : List (String × Nat)} (hpushes : ∀ p ∈ w.pushes, w.PushOk p)
    (hpoint : t.point = .scan phase j count lit) (h : w.PollOk t) :
    w.PollOk { t with point := w.stepScan t phase j count lit } := by
  have hover : t.point.Over = false := by rw [hpoint]; rfl
  refine ⟨shaped_stepScan hpoint h.shaped, fun _ => h.held hover, fun _ => h.known hover, ?_⟩
  cases phase with
  | second => exact h.scanned.stepScan hpushes hpoint
  | first =>
      unfold NotifyWorld.stepScan afterScan
      dsimp only
      split
      · split <;> trivial
      · split <;> trivial
  | last =>
      unfold NotifyWorld.stepScan afterScan
      dsimp only
      split
      · trivial
      · split <;> trivial

/-! ## Notifiers and futures -/

/-- The notifier of a dialogue is in the table afterwards, and no other one has changed. -/
theorem waker_spec (hvalid : ∀ d waker, w.inner d = some waker → waker < w.notifiers.length)
    (d : DialogueKey) :
    (w.waker d).1.inner d = some (w.waker d).2
    ∧ (∀ d' waker, w.inner d' = some waker → (w.waker d).1.inner d' = some waker)
    ∧ (∀ (waker : Nat) (n : Notify), w.notifiers[waker]? = some n →
        (w.waker d).1.notifiers[waker]? = some n)
    ∧ ∀ d' waker, (w.waker d).1.inner d' = some waker →
        waker < (w.waker d).1.notifiers.length := by
  unfold waker
  cases h : w.inner d with
  | some waker => exact ⟨h, fun _ _ h => h, fun _ _ h => h, hvalid⟩
  | none =>
      refine ⟨if_pos rfl, fun d' waker hw => ?_, fun waker n hn => ?_, fun d' waker hw => ?_⟩
      · have hne : d' ≠ d := by
          rintro rfl
          rw [h] at hw
          cases hw
        show (if d' = d then _ else w.inner d') = some waker
        rw [if_neg hne, hw]
      · show (w.notifiers ++ [Notify.new])[waker]? = some n
        rw [List.getElem?_append_left (List.getElem?_eq_some_iff.mp hn).1, hn]
      · show waker < (w.notifiers ++ [Notify.new]).length
        have hw : (if d' = d then some w.notifiers.length else w.inner d') = some waker := hw
        rw [List.length_append, List.length_singleton]
        split at hw
        · cases hw
          exact Nat.lt_succ_self _
        · exact Nat.lt_succ_of_lt (hvalid d' waker hw)

theorem grows_waker (hvalid : ∀ d waker, w.inner d = some waker → waker < w.notifiers.length)
    (d : DialogueKey) : Grows w (w.waker d).1 t := by
  obtain ⟨-, hinner, hnotifiers, -⟩ := waker_spec hvalid d
  obtain ⟨hreceipts, -, hpushes, -⟩ := waker_aside w d
  refine ⟨fun d' waker _ h => hinner d' waker h, fun waker n hn => ⟨n, hnotifiers waker n hn,
    Nat.le_refl _⟩, fun d' => ?_, fun p' hp' hann => .inl ?_⟩
  · rw [lastSeqOf, lastSeqOf, hreceipts]
  · rw [hpushes] at hp'
    exact ⟨p', hp', hann, rfl, rfl⟩

theorem PollOk.subscribe {item : NotifyItem} {waker : Nat} (h : w.PollOk t)
    (hpoint : t.point = .subscribe) (hitem : t.items[t.wakers.length]? = some item)
    (hinner : w.inner (t.dialogue item) = some waker) :
    w.PollOk { t with wakers := t.wakers ++ [waker] } := by
  have hover : t.point.Over = false := by rw [hpoint]; rfl
  have hshaped := h.shaped
  unfold Shaped at hshaped
  rw [hpoint] at hshaped
  have hlen : t.wakers.length < t.items.length := (List.getElem?_eq_some_iff.mp hitem).1
  refine ⟨?_, fun _ k waker' hk => ?_, fun _ k waker' f _ hf => ?_, ?_⟩
  · unfold Shaped
    dsimp only
    rw [hpoint]
    exact ⟨by rw [List.length_append, List.length_singleton]; exact hlen, hshaped.2⟩
  · have hk : (t.wakers ++ [waker])[k]? = some waker' := hk
    rw [List.getElem?_append] at hk
    split at hk
    · exact h.held hover k waker' hk
    · obtain ⟨hlt, rfl⟩ := List.getElem?_eq_some_iff.mp hk
      have hkeq : k = t.wakers.length := by
        rw [List.length_singleton] at hlt
        omega
      subst hkeq
      refine ⟨item, hitem, ?_⟩
      rw [List.getElem_singleton]
      exact hinner
  · have hf : t.notified[k]? = some f := hf
    rw [hshaped.2] at hf
    cases hf
  · unfold Scanned
    dsimp only
    rw [hpoint]
    trivial

theorem PollOk.subscribed (h : w.PollOk t) (hpoint : t.point = .subscribe)
    (hend : t.items[t.wakers.length]? = none) : w.PollOk { t with point := .futures } := by
  have hover : t.point.Over = false := by rw [hpoint]; rfl
  have hshaped := h.shaped
  unfold Shaped at hshaped
  rw [hpoint] at hshaped
  refine ⟨⟨Nat.le_antisymm hshaped.1 (List.getElem?_eq_none_iff.mp hend), ?_⟩,
    fun _ => h.held hover, fun _ => h.known hover, trivial⟩
  show t.notified.length ≤ t.items.length
  rw [hshaped.2]
  exact Nat.zero_le _

theorem PollOk.future {waker : Nat} (h : w.PollOk t)
    (hvalid : ∀ d waker, w.inner d = some waker → waker < w.notifiers.length)
    (hpoint : t.point = .futures) (hwaker : t.wakers[t.notified.length]? = some waker) :
    w.PollOk { t with notified := t.notified ++ [((w.notifiers[waker]?).getD .new).notified] } := by
  have hover : t.point.Over = false := by rw [hpoint]; rfl
  have hshaped := h.shaped
  unfold Shaped at hshaped
  rw [hpoint] at hshaped
  have hlen : t.notified.length < t.wakers.length := (List.getElem?_eq_some_iff.mp hwaker).1
  obtain ⟨item, -, hinner⟩ := h.held hover _ _ hwaker
  obtain ⟨n, hn⟩ : ∃ n, w.notifiers[waker]? = some n :=
    ⟨_, List.getElem?_eq_getElem (hvalid _ _ hinner)⟩
  refine ⟨?_, fun _ => h.held hover, fun _ k waker' f hk hf => ?_, ?_⟩
  · unfold Shaped
    dsimp only
    rw [hpoint]
    refine ⟨hshaped.1, ?_⟩
    rw [List.length_append, List.length_singleton, ← hshaped.1]
    exact hlen
  · have hk : t.wakers[k]? = some waker' := hk
    have hf : (t.notified ++ [((w.notifiers[waker]?).getD .new).notified])[k]? = some f := hf
    rw [List.getElem?_append] at hf
    split at hf
    · exact h.known hover k waker' f hk hf
    · obtain ⟨hlt, rfl⟩ := List.getElem?_eq_some_iff.mp hf
      have hkeq : k = t.notified.length := by
        rw [List.length_singleton] at hlt
        omega
      subst hkeq
      rw [hwaker] at hk
      cases hk
      refine ⟨_, hn, ?_⟩
      simp only [hn, Option.getD_some, List.getElem_singleton]
      exact Notified.before_notified
  · unfold Scanned
    dsimp only
    rw [hpoint]
    trivial

theorem PollOk.futures (h : w.PollOk t) (hpoint : t.point = .futures)
    (hend : t.wakers[t.notified.length]? = none) :
    w.PollOk { t with point := .scan .second 0 .position [] } := by
  have hover : t.point.Over = false := by rw [hpoint]; rfl
  have hshaped := h.shaped
  unfold Shaped at hshaped
  rw [hpoint] at hshaped
  have hle := List.getElem?_eq_none_iff.mp hend
  refine ⟨⟨hshaped.1, Nat.le_antisymm hshaped.2 (by rw [← hshaped.1]; exact hle)⟩,
    fun _ => h.held hover, fun _ => h.known hover, fun k _ hk => absurd hk (Nat.not_lt_zero k),
    fun floor _ hfloor => by cases hfloor⟩

/-- The last count is the poll's own affair. -/
theorem PollOk.last (h : w.PollOk t) (hpoint : t.point = .wait) :
    w.PollOk { t with point := .scan .last 0 .position [] } := by
  have hover : t.point.Over = false := by rw [hpoint]; rfl
  exact ⟨trivial, fun _ => h.held hover, fun _ => h.known hover, trivial⟩

theorem PollOk.over : w.PollOk { t with point := .failed } :=
  ⟨trivial, fun h => (by cases h), fun h => (by cases h), trivial⟩

theorem Watched.setPoll (h : w.Watched) (ht : w.PollOk t') : (w.setPoll i t').Watched := by
  refine ⟨h.valid, fun p hp => ⟨(h.pushes p hp).stored, (h.pushes p hp).waking⟩, fun t hmem => ?_⟩
  rcases List.mem_or_eq_of_mem_set hmem with hmem | rfl
  · have := h.polls t hmem
    exact ⟨this.shaped, this.held, this.known, this.scanned⟩
  · exact ⟨ht.shaped, ht.held, ht.known, ht.scanned⟩

theorem Watched.pollStep (h : w.Watched) (ht : w.polls[i]? = some t) (hs : PollCase w i t w') :
    w'.Watched := by
  have hok := h.polls t (List.mem_of_getElem? ht)
  cases hs with
  | scan hpoint => exact h.setPoll (hok.stepScan h.pushes hpoint)
  | subscribe hpoint hitem =>
      rename_i item
      obtain ⟨hinner, hkeep, -, hvalid⟩ := waker_spec h.valid (t.dialogue item)
      obtain ⟨-, hstore, hpushes, hpolls⟩ := waker_aside w (t.dialogue item)
      have hgrown : (w.waker (t.dialogue item)).1.Watched := by
        refine ⟨hvalid, fun p hp => ?_, fun t' ht' => ?_⟩
        · rw [hpushes] at hp
          refine ⟨?_, fun waker hwake => hkeep _ _ ((h.pushes p hp).waking waker hwake)⟩
          rw [hstore]
          exact (h.pushes p hp).stored
        · rw [hpolls] at ht'
          exact (h.polls t' ht').mono (fun _ => grows_waker h.valid _)
      refine hgrown.setPoll (PollOk.subscribe ?_ hpoint hitem hinner)
      exact hok.mono (fun _ => grows_waker h.valid _)
  | subscribed hpoint hend => exact h.setPoll (hok.subscribed hpoint hend)
  | future hpoint hwaker => exact h.setPoll (hok.future h.valid hpoint hwaker)
  | futures hpoint hend => exact h.setPoll (hok.futures hpoint hend)
  | woken hpoint _ => exact h.setPoll (hok.last hpoint)

/-- What leaves notifiers and long polls alone, and announces nothing. -/
theorem Watched.quiet (h : w.Watched) (hinner : w'.inner = w.inner)
    (hnotifiers : w'.notifiers = w.notifiers) (hpolls : w'.polls = w.polls)
    (hfloor : ∀ username d, w.lastSeqOf username d ≤ w'.lastSeqOf username d)
    (hlive : ∀ d s, s ∈ w.store.live d → s ∈ w'.store.live d)
    (hpushes : ∀ p' ∈ w'.pushes, p' ∈ w.pushes ∨ w'.PushOk p')
    (hannounced : ∀ p' ∈ w'.pushes, p'.point.Announced = true →
      ∃ p ∈ w.pushes, p.point.Announced = true ∧ p.dialogue = p'.dialogue ∧ p.seq = p'.seq) :
    w'.Watched := by
  refine ⟨by rw [hinner, hnotifiers]; exact h.valid, fun p' hp' => ?_, fun t ht => ?_⟩
  · rcases hpushes p' hp' with hp | hok
    · refine ⟨fun hs => hlive _ _ ((h.pushes p' hp).stored hs), fun waker hwake => ?_⟩
      rw [hinner]
      exact (h.pushes p' hp).waking waker hwake
    · exact hok
  · rw [hpolls] at ht
    exact (h.polls t ht).mono (fun _ => Grows.rfl hinner hnotifiers (hfloor t.sender) hannounced)

/-! ## One step, and all of them -/

/-- A push that moves on without being announced. -/
theorem Watched.movePush {point : PushPoint} (h : w.Watched) (hp : w.pushes[i]? = some p)
    (hstored : point.Stored = true → p.point.Stored = true)
    (hwaking : ∀ waker, point = .wake waker → w.inner p.dialogue = some waker)
    (hann : point.Announced = true → p.point.Announced = true) : (w.setPush i p point).Watched := by
  refine h.quiet rfl rfl rfl (fun _ _ => Nat.le_refl _) (fun _ _ hs => hs) (fun p' hp' => ?_)
    (announced_setPush hp hann)
  rcases List.mem_or_eq_of_mem_set hp' with hp' | rfl
  · exact .inl hp'
  · exact .inr ⟨fun hs => (h.pushes p (List.mem_of_getElem? hp)).stored (hstored hs), hwaking⟩

/-- A push that is announced now has woken whoever holds the notifier of its dialogue. -/
theorem Watched.announce {notifiers : List Notify} (h : w.Watched) (hp : w.pushes[i]? = some p)
    (hstored : p.point.Stored = true) (hlen : notifiers.length = w.notifiers.length)
    (hle : ∀ (waker : Nat) (n : Notify), w.notifiers[waker]? = some n →
      ∃ n', notifiers[waker]? = some n' ∧ n.calls ≤ n'.calls)
    (hwoken : ∀ (waker : Nat) (n : Notify), w.inner p.dialogue = some waker →
      w.notifiers[waker]? = some n → ∃ n', notifiers[waker]? = some n' ∧ n.calls < n'.calls) :
    ({ w with notifiers := notifiers }.setPush i p .respond).Watched := by
  have hmem := List.mem_of_getElem? hp
  refine ⟨fun d waker hw => ?_, fun p' hp' => ?_, fun t ht => (h.polls t ht).mono (fun _ => ?_)⟩
  · show waker < notifiers.length
    rw [hlen]
    exact h.valid d waker hw
  · rcases List.mem_or_eq_of_mem_set hp' with hp' | rfl
    · exact ⟨(h.pushes p' hp').stored, (h.pushes p' hp').waking⟩
    · exact ⟨fun _ => (h.pushes p hmem).stored hstored, fun waker hwake => by cases hwake⟩
  · refine ⟨fun _ _ _ hw => hw, hle, fun _ => Nat.le_refl _, fun p' hp' hann => ?_⟩
    rcases List.mem_or_eq_of_mem_set hp' with hp' | rfl
    · exact .inl ⟨p', hp', hann, rfl, rfl⟩
    · exact .inr (fun waker n _ hinner hn => hwoken waker n hinner hn)

theorem Watched.pushStep {now : Nat} (h : w.Watched) (hp : w.pushes[i]? = some p)
    (hfloor : ∀ username d, w.lastSeqOf username d ≤ w'.lastSeqOf username d)
    (hs : PushCase w i p now w') : w'.Watched := by
  have hmem := List.mem_of_getElem? hp
  cases hs with
  | stored hpoint hfree hstore =>
      subst hstore
      refine h.quiet rfl rfl rfl hfloor (fun d s hs => live_put_mono hs) (fun p' hp' => ?_)
        (announced_setPush hp (fun hann => by cases hann))
      rcases List.mem_or_eq_of_mem_set hp' with hp' | rfl
      · exact .inl hp'
      · exact .inr ⟨fun _ => PacketStore.mem_live_put.mpr (.inl rfl),
          fun waker hwake => by cases hwake⟩
  | refused =>
      exact h.movePush hp (fun hs => by cases hs) (fun _ hw => by cases hw) (fun hs => by cases hs)
  | frozen hpoint =>
      exact h.movePush hp (fun _ => by rw [hpoint]; rfl) (fun _ hw => by cases hw)
        (fun hs => by cases hs)
  | read hpoint =>
      exact h.movePush hp (fun _ => by rw [hpoint]; rfl) (fun _ hw => by cases hw)
        (fun hs => by cases hs)
  | raised hpoint =>
      refine h.quiet rfl rfl rfl hfloor (fun _ _ hs => hs) (fun p' hp' => ?_)
        (announced_setPush hp (fun hann => by cases hann))
      rcases List.mem_or_eq_of_mem_set hp' with hp' | rfl
      · exact .inl hp'
      · exact .inr ⟨fun _ => (h.pushes p hmem).stored (by rw [hpoint]; rfl),
          fun _ hw => by cases hw⟩
  | kept hpoint =>
      exact h.movePush hp (fun _ => by rw [hpoint]; rfl) (fun _ hw => by cases hw)
        (fun hs => by cases hs)
  | found hpoint hwaker =>
      refine h.movePush hp (fun _ => by rw [hpoint]; rfl) (fun waker hw => ?_)
        (fun hs => by cases hs)
      cases hw
      exact hwaker
  | nobody hpoint hnone =>
      have hnobody : ∀ (waker : Nat) (n : Notify), w.inner p.dialogue = some waker →
          w.notifiers[waker]? = some n →
            ∃ n', w.notifiers[waker]? = some n' ∧ n.calls < n'.calls := by
        intro waker n hinner _
        rw [hnone] at hinner
        cases hinner
      exact h.announce hp (by rw [hpoint]; rfl) rfl
        (fun waker n hn => ⟨n, hn, Nat.le_refl _⟩) hnobody
  | woke hpoint =>
      rename_i waker
      have hget : ∀ (k : Nat) (n : Notify), w.notifiers[k]? = some n →
          (w.notifiers.modify waker Notify.notifyWaiters)[k]?
            = some (if waker = k then n.notifyWaiters else n) := by
        intro k n hn
        rw [List.getElem?_modify, hn]
        split <;> rfl
      refine h.announce hp (by rw [hpoint]; rfl) (List.length_modify _ _ _) (fun k n hn => ?_)
        (fun k n hinner hn => ?_)
      · refine ⟨_, hget k n hn, ?_⟩
        split
        · exact Nat.le_succ _
        · exact Nat.le_refl _
      · -- the push has kept its notifier in the table since it looked it up
        have hwaking := (h.pushes p hmem).waking waker hpoint
        rw [hinner] at hwaking
        refine ⟨_, hget k n hn, ?_⟩
        rw [if_pos (Option.some.inj hwaking).symm]
        exact Nat.lt_succ_self _
  | done hpoint =>
      exact h.movePush hp (fun _ => by rw [hpoint]; rfl) (fun _ hw => by cases hw)
        (fun _ => by rw [hpoint]; rfl)

theorem Watched.gc (h : w.Watched) : w.gc.Watched := by
  have hkept : ∀ {d : DialogueKey} {waker : Nat}, w.inner d = some waker →
      (w.polls.any (·.holds waker) || w.pushes.any (·.holds waker)) = true →
      w.gc.inner d = some waker := by
    intro d waker hinner hheld
    unfold NotifyWorld.gc
    dsimp only
    rw [hinner, Option.filter_some, if_pos hheld]
  refine ⟨fun d waker hw => ?_, fun p hp => ⟨(h.pushes p hp).stored, fun waker hwake => ?_⟩,
    fun t ht => (h.polls t ht).mono (fun hover => ?_)⟩
  · unfold NotifyWorld.gc at hw
    exact h.valid d waker (Option.eq_some_of_filter_eq_some hw)
  · refine hkept ((h.pushes p hp).waking waker hwake) ?_
    rw [Bool.or_eq_true]
    exact .inr (List.any_eq_true.mpr ⟨p, hp, decide_eq_true hwake⟩)
  · refine ⟨fun d waker hwaker hinner => hkept hinner ?_, fun _ n hn => ⟨n, hn, Nat.le_refl _⟩,
      fun _ => Nat.le_refl _, fun p' hp' hann => .inl ⟨p', hp', hann, rfl, rfl⟩⟩
    rw [Bool.or_eq_true]
    refine .inl (List.any_eq_true.mpr ⟨t, ht, ?_⟩)
    unfold PollTask.holds
    rw [hover]
    simpa using hwaker

theorem Watched.step (h : w.Watched) (hok : w.KeepsPositions l) (hs : w.StepCase l w') :
    w'.Watched := by
  have hfloor := lastSeqOf_le hok hs
  cases hs with
  | push =>
      refine h.quiet rfl rfl rfl hfloor (fun _ _ hs => hs) (fun p' hp' => ?_) (fun p' hp' hann => ?_)
      · rcases List.mem_append.mp hp' with hp' | hp'
        · exact .inl hp'
        · cases List.mem_singleton.mp hp'
          exact .inr ⟨fun hs => (by cases hs), fun _ hw => (by cases hw)⟩
      · rcases List.mem_append.mp hp' with hp' | hp'
        · exact ⟨p', hp', hann, rfl, rfl⟩
        · cases List.mem_singleton.mp hp'
          cases hann
  | pushStep hp hs => exact h.pushStep hp hfloor (push_cases hs)
  | pushError hp hpoint =>
      refine h.movePush hp (fun _ => ?_) (fun _ hw => by cases hw) (fun hs => by cases hs)
      rcases hpoint with hpoint | ⟨state, hpoint⟩ <;> rw [hpoint] <;> rfl
  | pull =>
      unfold stepPull
      dsimp only
      split
      · exact h
      · split
        · exact h
        · exact h.quiet rfl rfl rfl (fun _ _ => Nat.le_refl _) (fun _ _ hs => hs)
            (fun p' hp' => .inl hp') (fun p' hp' hann => ⟨p', hp', hann, rfl, rfl⟩)
  | raiseStep hr hs =>
      cases raise_cases hs with
      | aside =>
          exact h.quiet rfl rfl rfl hfloor (fun _ _ hs => hs) (fun p' hp' => .inl hp')
            (fun p' hp' hann => ⟨p', hp', hann, rfl, rfl⟩)
      | raised =>
          exact h.quiet rfl rfl rfl hfloor (fun _ _ hs => hs) (fun p' hp' => .inl hp')
            (fun p' hp' hann => ⟨p', hp', hann, rfl, rfl⟩)
  | notify =>
      refine ⟨h.valid, fun p hp => ⟨(h.pushes p hp).stored, (h.pushes p hp).waking⟩, fun t ht => ?_⟩
      rcases List.mem_append.mp ht with ht | ht
      · have := h.polls t ht
        exact ⟨this.shaped, this.held, this.known, this.scanned⟩
      · cases List.mem_singleton.mp ht
        exact ⟨⟨rfl, rfl⟩, fun _ _ _ hw => (by cases hw), fun _ _ _ _ hw => (by cases hw), trivial⟩
  | pollStep ht hs => exact h.pollStep ht (poll_cases hs)
  | timeout ht hpoint => exact h.setPoll ((h.polls _ (List.mem_of_getElem? ht)).last hpoint)
  | ended => exact h.setPoll PollOk.over
  | gc => exact h.gc

theorem watched_reachable (hr : Lts.Reach step KeepsPositions (init receipts) w) : w.Watched :=
  hr.invariant (watched_init receipts) (fun _ _ _ _ h hok hs => h.step hok (step_cases hs))

/-! ## What follows -/

/-- The long poll waits, none of its futures is ready, and a push that has finished to one of its
dialogues is above its cursor and the position of its account. -/
def SleepsThrough (w : NotifyWorld) (t : PollTask) : Prop :=
  t.point = .wait ∧ ¬ w.Woken t
    ∧ ∃ item ∈ t.items, ∃ p ∈ w.pushes, p.point = .done ∧ p.dialogue = t.dialogue item
      ∧ p.seq ∈ w.store.live p.dialogue
      ∧ max item.seq (w.lastSeqOf t.sender (t.dialogue item)) < p.seq

instance (w : NotifyWorld) (t : PollTask) : Decidable (w.SleepsThrough t) := by
  unfold SleepsThrough
  infer_instance

theorem Watched.not_sleeps (h : w.Watched) (ht : t ∈ w.polls) : ¬ w.SleepsThrough t := by
  rintro ⟨hpoint, hwoken, item, hitem, p, hp, hdone, hd, -, hlt⟩
  obtain ⟨k, hk, rfl⟩ := List.getElem_of_mem hitem
  have hscanned := (h.polls t ht).scanned
  unfold Scanned at hscanned
  rw [hpoint] at hscanned
  have hasleep : w.Asleep t k := by
    intro waker f n hwaker hf hn hready
    refine hwoken ⟨(waker, f), ?_, n, hn, hready⟩
    exact List.mem_of_getElem? (List.getElem?_zip_eq_some.mpr ⟨hwaker, hf⟩)
  have := hscanned k _ (List.getElem?_eq_getElem hk) hasleep p hp (by rw [hdone]; rfl) hd
  omega

/-- **Nobody sleeps through a push**, as long as no update writes back a position below the one there
is. -/
theorem nobody_sleeps (hr : Lts.Reach step KeepsPositions (init receipts) w) (ht : t ∈ w.polls) :
    ¬ w.SleepsThrough t :=
  (watched_reachable hr).not_sleeps ht

/-! ## A wait that nothing ends, and one that ends -/

section Example

/-- A push, from its first step to its last when nobody waits. -/
def wholePush (sender recver : String) (i seq : Nat) : List NotifyLabel :=
  .push sender recver seq :: List.replicate 5 (.pushStep i 0)

/-- Bob pushes 6 after Alice has asked, and then she counts twice and waits. -/
def askedBefore : List NotifyLabel :=
  .notify "alice" [⟨"bob", 0⟩] true :: wholePush "bob" "alice" 2 6
    ++ List.replicate 10 (.pollStep 0)

def aliceWaits : PollTask := ⟨"alice", [⟨"bob", 0⟩], true, [0], [⟨0⟩], .wait⟩

/-- Alice's push of 5 has read her position when another one raises it to 7. -/
def overtaken : List NotifyLabel :=
  [.push "alice" "bob" 5, .pushStep 0 0, .pushStep 0 0] ++ wholePush "alice" "bob" 1 7

/-- The same of a pull that has got 5. -/
def overtakenPull : List NotifyLabel :=
  wholePush "bob" "alice" 0 5 ++ [.pull "alice" "bob" 0 5, .raiseStep 0 0]
    ++ wholePush "alice" "bob" 1 7

/-- While she waits, her position goes back below what Bob has pushed; after a pull that is so, and
stays so, when every push has finished. -/
theorem slept_through :
    (∃ w, Lts.exec step (init .empty) (overtaken ++ askedBefore ++ [.pushStep 0 0]) = some w
      ∧ aliceWaits ∈ w.polls ∧ w.SleepsThrough aliceWaits)
    ∧ ∃ w, Lts.exec step (init .empty) (overtakenPull ++ askedBefore ++ [.raiseStep 0 0]) = some w
      ∧ aliceWaits ∈ w.polls ∧ w.SleepsThrough aliceWaits ∧ ∀ p ∈ w.pushes, p.point = .done :=
  ⟨⟨_, rfl, by decide, by decide⟩, ⟨_, rfl, by decide, by decide, by decide⟩⟩

/-- The same pushes one after the other, and one more that has stored its packet. -/
def sleepingRun : List NotifyLabel :=
  wholePush "alice" "bob" 0 5 ++ wholePush "alice" "bob" 1 7 ++ askedBefore
    ++ [.gc, .push "bob" "alice" 9, .pushStep 3 0]

def sleepingWorld : NotifyWorld :=
  (Lts.execWhile step KeepsPositions (init .empty) sleepingRun).getD (init .empty)

theorem nobody_sleeps_sleepingRun :
    aliceWaits ∈ sleepingWorld.polls ∧ ¬ sleepingWorld.SleepsThrough aliceWaits :=
  have h : (Lts.execWhile step KeepsPositions (init .empty) sleepingRun).isSome = true := by decide
  have ht : aliceWaits ∈ sleepingWorld.polls := by decide
  ⟨ht, nobody_sleeps (Lts.reach_getD h) ht⟩

end Example

end NotifyWorld

end Paranoia
