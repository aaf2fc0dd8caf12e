import Mathlib.Data.List.TakeWhile
import Paranoia.Server.CallMailbox

/-!
# What becomes of a call signal

Envelopes leave a queue at its front only, whatever takes them out, so what was accepted for a user
is what has left its queue followed by what is in it. With that every accepted envelope has one fate
at most, and the polls have taken what they took in the order it was accepted in. A poll that waits
holds the notifier of its queue, so the collector leaves that queue alone, and a push to it wakes
the poll (`mailbox_safe`).
-/

namespace Paranoia

namespace Mailbox

/-- The envelope is in its queue, or was. -/
def SignalPoint.Accepted : SignalPoint → Bool
  | .wake _ => true
  | .answered success _ => success
  | _ => false

/-- What the poll answers with. -/
def PollPoint.answer : PollPoint → List CallEnvelope
  | .answered items => items
  | _ => []

/-- The future it has made. -/
def PollPoint.future? : PollPoint → Option (Nat × Notified)
  | .second waker notified => some (waker, notified)
  | .wait waker notified => some (waker, notified)
  | _ => none

/-- The poll is about to take what is in the queue. -/
def PollPoint.Looks : PollPoint → Bool
  | .first => true
  | .second _ _ => true
  | .last _ => true
  | _ => false

/-- The poll has come to its future, or past it. -/
def PollPoint.Ahead : PollPoint → Bool
  | .first => false
  | .subscribe => false
  | .future _ => false
  | _ => true

/-- An envelope goes without being returned if it is too old, or first in a full queue. -/
def Fate.Lawful (e : CallEnvelope) : Fate → Prop
  | .returned _ => True
  | .expired now => envelopeTtl < now - e.received
  | .overflow length => length = maxQueueLen

namespace World

variable {w w' : World} {l : Label} {i j : Nat} {s : SignalTask} {t : PollTask} {u user : String}

/-- The envelopes accepted for a user, in order. -/
def envelopes (w : World) (user : String) : List CallEnvelope :=
  (w.accepted user).filterMap (fun j => (w.signals[j]?).map SignalTask.envelope)

/-- The envelopes of a user that a poll has taken. -/
def returned (w : World) (user : String) (i : Nat) : List CallEnvelope :=
  ((w.gone user).filter (fun e => e.2 = .returned i)).map Prod.fst

/-! ## What a step does -/

/-- What a step of a poll does, in cases. -/
inductive PollCase (w : World) (i : Nat) (t : PollTask) : World → Prop where
  | drained {point : PollPoint} (hopen : t.point.answer = []) (hitems : point.answer = w.items t.user)
      (hahead : t.point.Ahead = true → point.Ahead = true)
      (hpoint : point.waker? = none ∨ ∃ waker notified, t.point = .second waker notified
        ∧ point = .wait waker notified) :
      PollCase w i t ((w.drain i t.user).setPoll i t point)
  | subscribed (hpoint : t.point = .subscribe) :
      PollCase w i t ((w.entry t.user).1.setPoll i t (.future (w.entry t.user).2.waker))
  | future {waker : Nat} (hpoint : t.point = .future waker) :
      PollCase w i t (w.setPoll i t (.second waker ((w.notifiers[waker]?).getD .new).notified))
  | woken {waker : Nat} {notified : Notified} (hpoint : t.point = .wait waker notified) :
      PollCase w i t (w.setPoll i t (.last waker))

theorem poll_cases (h : w.stepPoll i t = some w') : PollCase w i t w' := by
  unfold stepPoll at h
  split at h
  · rename_i hpoint
    have hopen : t.point.answer = [] := by rw [hpoint]; rfl
    split at h
    · cases h
      exact .drained hopen rfl (fun _ => rfl) (.inl rfl)
    · rename_i hitems
      have hitems : [] = w.items t.user := (not_not.mp hitems).symm
      split at h <;> cases h
      · exact .drained hopen hitems (fun _ => rfl) (.inl rfl)
      · exact .drained hopen hitems (fun ha => by rw [hpoint] at ha; cases ha) (.inl rfl)
  · rename_i hpoint
    cases h
    exact .subscribed hpoint
  · rename_i waker hpoint
    cases h
    exact .future hpoint
  · rename_i waker notified hpoint
    have hopen : t.point.answer = [] := by rw [hpoint]; rfl
    split at h <;> cases h
    · exact .drained hopen rfl (fun _ => rfl) (.inl rfl)
    · rename_i hitems
      exact .drained hopen (not_not.mp hitems).symm (fun _ => rfl) (.inr ⟨waker, notified, hpoint, rfl⟩)
  · rename_i waker notified hpoint
    obtain ⟨_, h⟩ := Option.ite_none_right_eq_some.mp h
    cases h
    exact .woken hpoint
  · rename_i waker hpoint
    cases h
    exact .drained (by rw [hpoint]; rfl) rfl (fun _ => rfl) (.inl rfl)
  · cases h
  · cases h
  · cases h

inductive StepCase (w : World) : Label → World → Prop where
  | aside {l : Label} {cfg : Config} {now : Nat} : StepCase w l { w with cfg := cfg, now := now }
  | signal {l : Label} {s : SignalTask} (hs : s.point.Accepted = false) :
      StepCase w l { w with signals := w.signals ++ [s] }
  | push {i : Nat} {s : SignalTask} (hs : w.signals[i]? = some s) (hpoint : s.point = .push) :
      StepCase w (.signalStep i) (w.push i s)
  | wake {i : Nat} {s : SignalTask} {waker : Nat} (hs : w.signals[i]? = some s)
      (hpoint : s.point = .wake waker) :
      StepCase w (.signalStep i)
        ({ w with notifiers := w.notifiers.modify waker Notify.notifyWaiters }.setSignal i s
          (.answered true "queued"))
  | signalCancel {i : Nat} {s : SignalTask} (hs : w.signals[i]? = some s)
      (hpoint : s.point = .push) : StepCase w (.signalCancel i) (w.setSignal i s .cancelled)
  | poll {l : Label} {t : PollTask} (hanswer : t.point.answer = [])
      (hwaker : t.point.waker? = none) : StepCase w l { w with polls := w.polls ++ [t] }
  | pollStep {i : Nat} {t : PollTask} {w' : World} (ht : w.polls[i]? = some t)
      (h : PollCase w i t w') : StepCase w (.pollStep i) w'
  | timeout {i : Nat} {t : PollTask} {waker : Nat} {notified : Notified}
      (ht : w.polls[i]? = some t) (hpoint : t.point = .wait waker notified) :
      StepCase w (.timeout i) (w.setPoll i t (.last waker))
  | cancel {i : Nat} {t : PollTask} (ht : w.polls[i]? = some t) (hopen : t.point.answer = []) :
      StepCase w (.cancel i) (w.setPoll i t .cancelled)
  | gc : StepCase w .gc w.gc

theorem step_cases (h : w.step l = some w') : w.StepCase l w' := by
  cases l with
  | tick ms => cases h; exact .aside
  | configure cfg => cases h; exact .aside
  | signal sender recver kind tsMs payload sig =>
      cases h
      unfold beginSignal
      split
      · exact .signal rfl
      · exact .signal rfl
  | signalStep i =>
      obtain ⟨s, hs, h⟩ := Option.bind_eq_some_iff.mp h
      unfold stepSignal at h
      split at h <;> cases h
      · rename_i hpoint
        exact .push hs hpoint
      · rename_i waker hpoint
        exact .wake hs hpoint
  | signalCancel i =>
      obtain ⟨s, hs, h⟩ := Option.bind_eq_some_iff.mp h
      obtain ⟨hpoint, h⟩ := Option.ite_none_right_eq_some.mp h
      cases h
      exact .signalCancel hs hpoint
  | poll user nonce longPollMs sig =>
      cases h
      unfold beginPoll
      split
      · exact .poll rfl rfl
      · exact .poll rfl rfl
  | pollStep i =>
      obtain ⟨t, ht, h⟩ := Option.bind_eq_some_iff.mp h
      exact .pollStep ht (poll_cases h)
  | timeout i =>
      obtain ⟨t, ht, h⟩ := Option.bind_eq_some_iff.mp h
      split at h <;> cases h
      rename_i hpoint
      exact .timeout ht hpoint
  | cancel i =>
      obtain ⟨t, ht, h⟩ := Option.bind_eq_some_iff.mp h
      split at h <;> cases h
      rename_i hanswered _
      refine .cancel ht ?_
      cases hp : t.point with
      | answered items => exact absurd hp (hanswered items)
      | _ => rfl
  | gc => cases h; exact .gc

/-! ## What has left a queue -/

structure Sound (w : World) : Prop where
  nodup : ∀ u, (w.accepted u).Nodup
  accepted : ∀ u j, j ∈ w.accepted u ↔
    ∃ s, w.signals[j]? = some s ∧ s.recver = u ∧ s.point.Accepted = true
  /-- Each accepted envelope is in its place, with its one fate or in the queue. -/
  log : ∀ u, w.envelopes u = (w.gone u).map Prod.fst ++ w.items u
  short : ∀ u, (w.items u).length ≤ maxQueueLen
  lawful : ∀ u, ∀ e ∈ w.gone u, e.2.Lawful e.1
  answers : ∀ i t, w.polls[i]? = some t → t.point.answer = w.returned t.user i
  taken : ∀ u e i, (e, Fate.returned i) ∈ w.gone u → ∃ t, w.polls[i]? = some t ∧ t.user = u

theorem sound_init (cfg : Config) (now : Nat) : (init cfg now).Sound := by
  refine ⟨?_, ?_, ?_, ?_, ?_, ?_, ?_⟩ <;> simp [init, envelopes, items]

theorem Sound.congr (h : w.Sound) (hitems : w'.items = w.items) (hsignals : w'.signals = w.signals)
    (hpolls : w'.polls = w.polls) (haccepted : w'.accepted = w.accepted) (hgone : w'.gone = w.gone) :
    w'.Sound := by
  refine ⟨?_, ?_, fun u => ?_, ?_, ?_, ?_, ?_⟩
  · rw [haccepted]
    exact h.nodup
  · rw [haccepted, hsignals]
    exact h.accepted
  · rw [envelopes, haccepted, hsignals, hgone, hitems]
    exact h.log u
  · rw [hitems]
    exact h.short
  · rw [hgone]
    exact h.lawful
  · unfold returned
    rw [hpolls, hgone]
    exact h.answers
  · rw [hpolls, hgone]
    exact h.taken

/-- A queue that is made is empty. -/
theorem entry_aside (w : World) (user : String) :
    (w.entry user).1.items = w.items ∧ (w.entry user).1.signals = w.signals
    ∧ (w.entry user).1.polls = w.polls ∧ (w.entry user).1.accepted = w.accepted
    ∧ (w.entry user).1.gone = w.gone ∧ (w.entry user).2.items = w.items user := by
  unfold entry
  cases h : w.inner user with
  | some q =>
      refine ⟨rfl, rfl, rfl, rfl, rfl, ?_⟩
      unfold items
      rw [h]
  | none =>
      refine ⟨funext (fun u => ?_), rfl, rfl, rfl, rfl, ?_⟩
      · unfold items
        dsimp only
        by_cases hu : u = user
        · subst hu
          rw [if_pos rfl, h]
        · rw [if_neg hu]
      · unfold items
        rw [h]

theorem Sound.entry (h : w.Sound) (user : String) : (w.entry user).1.Sound := by
  obtain ⟨hitems, hsignals, hpolls, haccepted, hgone, -⟩ := entry_aside w user
  exact h.congr hitems hsignals hpolls haccepted hgone

/-- Requests stay what they are. -/
theorem Sound.lt_of_accepted (h : w.Sound) (hj : j ∈ w.accepted u) : j < w.signals.length := by
  obtain ⟨s, hs, -⟩ := (h.accepted u j).mp hj
  exact (List.getElem?_eq_some_iff.mp hs).1

theorem Sound.signal (h : w.Sound) (hs : s.point.Accepted = false) :
    ({ w with signals := w.signals ++ [s] } : World).Sound := by
  refine { h with accepted := fun u j => ?_, log := fun u => ?_ }
  · rw [h.accepted u j]
    constructor
    · rintro ⟨s', hs', hrest⟩
      refine ⟨s', ?_, hrest⟩
      show (w.signals ++ [s])[j]? = some s'
      rw [List.getElem?_append_left (List.getElem?_eq_some_iff.mp hs').1, hs']
    · rintro ⟨s', hs', hu, hacc⟩
      have hs' : (w.signals ++ [s])[j]? = some s' := hs'
      rw [List.getElem?_append] at hs'
      split at hs'
      · exact ⟨s', hs', hu, hacc⟩
      · rename_i hlt
        have hmem := List.mem_of_getElem? hs'
        cases List.mem_singleton.mp hmem
        rw [hs] at hacc
        cases hacc
  · refine Eq.trans (List.filterMap_congr (fun j hj => ?_)) (h.log u)
    rw [List.getElem?_append_left (h.lt_of_accepted hj)]

theorem envelope_set {point : SignalPoint} (hs : w.signals[i]? = some s) (j : Nat) :
    ((w.signals.set i { s with point := point })[j]?).map SignalTask.envelope
      = (w.signals[j]?).map SignalTask.envelope := by
  by_cases hij : i = j
  · subst hij
    rw [List.getElem?_set_self (List.getElem?_eq_some_iff.mp hs).1, hs]
    rfl
  · rw [List.getElem?_set_ne hij]

/-- Which requests are accepted when one has moved on. -/
theorem accepted_set {point : SignalPoint} (hs : w.signals[i]? = some s) (j : Nat) :
    (∃ s', (w.signals.set i { s with point := point })[j]? = some s' ∧ s'.recver = u
        ∧ s'.point.Accepted = true) ↔
      if j = i then s.recver = u ∧ point.Accepted = true
      else ∃ s', w.signals[j]? = some s' ∧ s'.recver = u ∧ s'.point.Accepted = true := by
  split
  · rename_i hji
    subst hji
    rw [List.getElem?_set_self (List.getElem?_eq_some_iff.mp hs).1]
    constructor
    · rintro ⟨_, ⟨⟩, hrest⟩
      exact hrest
    · exact fun hrest => ⟨_, rfl, hrest⟩
  · rename_i hji
    rw [List.getElem?_set_ne (Ne.symm hji)]

theorem Sound.setSignal {point : SignalPoint} (h : w.Sound) (hs : w.signals[i]? = some s)
    (hpoint : point.Accepted = s.point.Accepted) : (w.setSignal i s point).Sound := by
  refine { h with accepted := fun u j => ?_, log := fun u => ?_ }
  · refine (h.accepted u j).trans (Iff.trans ?_ (accepted_set hs j).symm)
    split
    · rename_i hji
      subst hji
      rw [hs, hpoint]
      constructor
      · rintro ⟨_, ⟨⟩, hrest⟩
        exact hrest
      · exact fun hrest => ⟨_, rfl, hrest⟩
    · exact Iff.rfl
  · exact Eq.trans (List.filterMap_congr (fun j _ => envelope_set hs j)) (h.log u)

theorem items_setItems (w : World) (user : String) (waker : Nat) (items : List CallEnvelope)
    (left : List (CallEnvelope × Fate)) (u : String) :
    (w.setItems user waker items left).items u = if u = user then items else w.items u := by
  unfold setItems World.items
  dsimp only
  by_cases hu : u = user
  · rw [if_pos hu, if_pos hu]
  · rw [if_neg hu, if_neg hu]

/-- A queue gives its oldest envelope away if it is full, and no other. -/
theorem push_spec (w : World) (i : Nat) (s : SignalTask)
    (hshort : (w.items s.recver).length ≤ maxQueueLen) :
    ∃ dropped kept waker, w.items s.recver = dropped ++ kept ∧ kept.length < maxQueueLen
      ∧ (dropped ≠ [] → (w.items s.recver).length = maxQueueLen)
      ∧ (∀ u, (w.push i s).items u = if u = s.recver then kept ++ [s.envelope] else w.items u)
      ∧ (∀ u, (w.push i s).gone u = if u = s.recver
          then w.gone u ++ dropped.map (fun e => (e, .overflow (w.items s.recver).length))
          else w.gone u)
      ∧ (∀ u, (w.push i s).accepted u
          = if u = s.recver then w.accepted u ++ [i] else w.accepted u)
      ∧ (w.push i s).signals = w.signals.set i { s with point := .wake waker }
      ∧ (w.push i s).polls = w.polls := by
  obtain ⟨hitems, hsignals, hpolls, haccepted, hgone, hq⟩ := entry_aside w s.recver
  refine ⟨if (w.items s.recver).length ≥ maxQueueLen then (w.items s.recver).take 1 else [],
    if (w.items s.recver).length ≥ maxQueueLen then (w.items s.recver).drop 1
      else w.items s.recver,
    (w.entry s.recver).2.waker, ?_, ?_, fun hne => ?_, fun u => ?_, fun u => ?_, fun u => ?_, ?_,
    hpolls⟩
  · split
    · exact (List.take_append_drop 1 _).symm
    · rfl
  · split
    · rename_i hfull
      rw [List.length_drop, Nat.le_antisymm hshort hfull]
      decide
    · rename_i hfull
      exact Nat.lt_of_not_le hfull
  · split at hne
    · rename_i hfull
      exact Nat.le_antisymm hshort hfull
    · exact absurd rfl hne
  · have hpush : (w.push i s).items u
        = ((w.entry s.recver).1.setItems s.recver (w.entry s.recver).2.waker
            ((if (w.entry s.recver).2.items.length ≥ maxQueueLen
              then (w.entry s.recver).2.items.drop 1 else (w.entry s.recver).2.items)
              ++ [s.envelope]) []).items u := rfl
    rw [hpush, items_setItems, hq, hitems]
  · unfold push setItems
    dsimp only
    rw [hq, hgone]
  · unfold push
    dsimp only
    rw [haccepted]
  · unfold push
    dsimp only
    rw [hsignals]

theorem Sound.push (h : w.Sound) (hs : w.signals[i]? = some s) (hpoint : s.point = .push) :
    (w.push i s).Sound := by
  obtain ⟨dropped, kept, waker, hsplit, hkept, hfull, hitems, hgone, haccepted, hsignals, hpolls⟩ :=
    push_spec w i s (h.short s.recver)
  have hnew : i ∉ w.accepted s.recver := by
    intro hi
    obtain ⟨s', hs', -, hacc⟩ := (h.accepted _ _).mp hi
    rw [hs] at hs'
    cases hs'
    rw [hpoint] at hacc
    cases hacc
  have hreturned : ∀ u j, (w.push i s).returned u j = w.returned u j := by
    intro u j
    unfold returned
    rw [hgone u]
    split
    · rw [List.filter_append, List.map_append]
      have hnone : (dropped.map (fun e => (e, Fate.overflow (w.items s.recver).length))).filter
          (fun e => e.2 = .returned j) = [] := by
        refine List.filter_eq_nil_iff.mpr (fun e he => ?_)
        obtain ⟨_, -, rfl⟩ := List.mem_map.mp he
        simp
      rw [hnone, List.map_nil, List.append_nil]
    · rfl
  refine ⟨fun u => ?_, fun u j => ?_, fun u => ?_, fun u => ?_, fun u e he => ?_, fun j t ht => ?_,
    fun u e j he => ?_⟩
  · rw [haccepted u]
    split
    · rename_i hu
      subst hu
      exact List.Nodup.append (h.nodup _) (List.nodup_singleton i) (by simpa using hnew)
    · exact h.nodup u
  · rw [haccepted u, hsignals]
    refine Iff.trans ?_ (accepted_set hs j).symm
    by_cases hji : j = i
    · subst hji
      rw [if_pos rfl]
      split
      · rename_i hu
        subst hu
        exact iff_of_true (List.mem_append_right _ (List.mem_singleton_self j)) ⟨rfl, rfl⟩
      · rename_i hu
        refine iff_of_false (fun hmem => ?_) (fun hown => hu hown.1.symm)
        obtain ⟨s', hs', -, hacc⟩ := (h.accepted _ _).mp hmem
        rw [hs] at hs'
        cases hs'
        rw [hpoint] at hacc
        cases hacc
    · rw [if_neg hji, ← h.accepted u j]
      split
      · rw [List.mem_append, List.mem_singleton]
        exact or_iff_left hji
      · exact Iff.rfl
  · have hsame : ∀ j : Nat, ((w.push i s).signals[j]?).map SignalTask.envelope
        = (w.signals[j]?).map SignalTask.envelope := by
      intro j
      rw [hsignals]
      exact envelope_set hs j
    have hlog := h.log u
    unfold envelopes at hlog ⊢
    simp only [hsame]
    rw [haccepted u, hgone u, hitems u]
    split
    · rename_i hu
      subst hu
      rw [List.filterMap_append, hlog, hsplit, List.map_append, List.map_map]
      simp [hs, Function.comp_def]
    · exact hlog
  · rw [hitems u]
    split
    · rw [List.length_append, List.length_singleton]
      exact hkept
    · exact h.short u
  · rw [hgone u] at he
    split at he
    · rcases List.mem_append.mp he with he | he
      · exact h.lawful u e he
      · obtain ⟨e', he', rfl⟩ := List.mem_map.mp he
        exact hfull (List.ne_nil_of_mem he')
    · exact h.lawful u e he
  · rw [hpolls] at ht
    rw [hreturned]
    exact h.answers j t ht
  · rw [hpolls]
    rw [hgone u] at he
    split at he
    · rcases List.mem_append.mp he with he | he
      · exact h.taken u e j he
      · obtain ⟨_, -, he⟩ := List.mem_map.mp he
        cases he
    · exact h.taken u e j he

/-! ## Polls -/

theorem returned_of_untaken (h : ∀ e, (e, Fate.returned i) ∉ w.gone u) : w.returned u i = [] := by
  unfold returned
  have hnone : (w.gone u).filter (fun e => e.2 = .returned i) = [] := by
    refine List.filter_eq_nil_iff.mpr (fun e he => ?_)
    simp only [decide_eq_true_eq]
    intro hfate
    exact h e.1 (hfate ▸ he)
  rw [hnone, List.map_nil]

theorem Sound.poll (h : w.Sound) (hanswer : t.point.answer = []) :
    ({ w with polls := w.polls ++ [t] } : World).Sound := by
  refine { h with answers := fun i t' ht' => ?_, taken := fun u e i he => ?_ }
  · have ht' : (w.polls ++ [t])[i]? = some t' := ht'
    rw [List.getElem?_append] at ht'
    split at ht'
    · exact h.answers i t' ht'
    · rename_i hlt
      cases List.mem_singleton.mp (List.mem_of_getElem? ht')
      rw [hanswer]
      refine (returned_of_untaken (fun e he => ?_)).symm
      obtain ⟨t', ht', -⟩ := h.taken _ _ _ he
      exact hlt (List.getElem?_eq_some_iff.mp ht').1
  · obtain ⟨t', ht', hu⟩ := h.taken u e i he
    refine ⟨t', ?_, hu⟩
    show (w.polls ++ [t])[i]? = some t'
    rw [List.getElem?_append_left (List.getElem?_eq_some_iff.mp ht').1, ht']

/-- Polls stay what they are. -/
theorem user_set (point : PollPoint) (ht : w.polls[i]? = some t) {t' : PollTask}
    (ht' : w.polls[j]? = some t') :
    ∃ t'', (w.polls.set i { t with point := point })[j]? = some t'' ∧ t''.user = t'.user := by
  by_cases hij : i = j
  · subst hij
    rw [ht] at ht'
    cases ht'
    exact ⟨_, List.getElem?_set_self (List.getElem?_eq_some_iff.mp ht).1, rfl⟩
  · exact ⟨t', by rw [List.getElem?_set_ne hij, ht'], rfl⟩

theorem Sound.setPoll {point : PollPoint} (h : w.Sound) (ht : w.polls[i]? = some t)
    (hanswer : point.answer = t.point.answer) : (w.setPoll i t point).Sound := by
  refine { h with answers := fun j t' ht' => ?_, taken := fun u e j he => ?_ }
  · have ht' : (w.polls.set i { t with point := point })[j]? = some t' := ht'
    by_cases hij : i = j
    · subst hij
      rw [List.getElem?_set_self (List.getElem?_eq_some_iff.mp ht).1] at ht'
      cases ht'
      exact hanswer.trans (h.answers i t ht)
    · rw [List.getElem?_set_ne hij] at ht'
      exact h.answers j t' ht'
  · obtain ⟨t', ht', hu⟩ := h.taken u e j he
    obtain ⟨t'', ht'', hu'⟩ := user_set point ht ht'
    exact ⟨t'', ht'', hu'.trans hu⟩

theorem drain_spec (w : World) (i : Nat) (user : String) :
    (∀ u, (w.drain i user).items u = if u = user then [] else w.items u)
    ∧ (∀ u, (w.drain i user).gone u = if u = user
        then w.gone u ++ (w.items user).map (fun e => (e, .returned i)) else w.gone u)
    ∧ (w.drain i user).signals = w.signals ∧ (w.drain i user).polls = w.polls
    ∧ (w.drain i user).accepted = w.accepted := by
  unfold drain
  cases h : w.inner user with
  | some q =>
      have hitems : w.items user = q.items := by
        unfold items
        rw [h]
      rw [hitems]
      exact ⟨items_setItems w user q.waker [] _, fun _ => rfl, rfl, rfl, rfl⟩
  | none =>
      have hitems : w.items user = [] := by
        unfold items
        rw [h]
      rw [hitems]
      refine ⟨fun u => ?_, fun u => ?_, rfl, rfl, rfl⟩
      · by_cases hu : u = user
        · rw [if_pos hu, hu]
          exact hitems
        · rw [if_neg hu]
      · by_cases hu : u = user
        · rw [if_pos hu]
          exact (List.append_nil _).symm
        · rw [if_neg hu]

theorem filter_returned (items : List CallEnvelope) (i j : Nat) :
    ((items.map (fun e => (e, Fate.returned i))).filter (fun e => e.2 = .returned j)).map Prod.fst
      = if j = i then items else [] := by
  split
  · rename_i hji
    subst hji
    rw [List.filter_eq_self.mpr, List.map_map]
    · exact List.map_id items
    · intro e he
      obtain ⟨_, -, rfl⟩ := List.mem_map.mp he
      exact decide_eq_true rfl
  · rename_i hji
    rw [List.filter_eq_nil_iff.mpr, List.map_nil]
    intro e he
    obtain ⟨_, -, rfl⟩ := List.mem_map.mp he
    simpa using Ne.symm hji

/-- A poll that drains a queue has taken what was in it. -/
theorem Sound.drained {point : PollPoint} (h : w.Sound) (ht : w.polls[i]? = some t)
    (hopen : t.point.answer = []) (hanswer : point.answer = w.items t.user) :
    ((w.drain i t.user).setPoll i t point).Sound := by
  obtain ⟨hitems, hgone, hsignals, hpolls, haccepted⟩ := drain_spec w i t.user
  have hreturned : ∀ u j, (w.drain i t.user).returned u j
      = if u = t.user then w.returned u j ++ (if j = i then w.items t.user else [])
        else w.returned u j := by
    intro u j
    unfold returned
    rw [hgone u]
    split
    · rw [List.filter_append, List.map_append, filter_returned]
    · rfl
  have hw : (w.drain i t.user).polls[i]? = some t := by rw [hpolls, ht]
  refine ⟨?_, fun u j => ?_, fun u => ?_, fun u => ?_, fun u e he => ?_, fun j t' ht' => ?_,
    fun u e j he => ?_⟩
  · show ∀ u, ((w.drain i t.user).accepted u).Nodup
    rw [haccepted]
    exact h.nodup
  · show j ∈ (w.drain i t.user).accepted u ↔ ∃ s, (w.drain i t.user).signals[j]? = some s ∧ _
    rw [haccepted, hsignals]
    exact h.accepted u j
  · show (w.drain i t.user).envelopes u
      = ((w.drain i t.user).gone u).map Prod.fst ++ (w.drain i t.user).items u
    rw [envelopes, haccepted, hsignals, hgone u, hitems u]
    split
    · rename_i hu
      subst hu
      rw [List.map_append, List.map_map, List.append_nil]
      refine (h.log t.user).trans ?_
      rw [Function.comp_def, List.map_id']
    · exact h.log u
  · show ((w.drain i t.user).items u).length ≤ maxQueueLen
    rw [hitems u]
    split
    · exact Nat.zero_le _
    · exact h.short u
  · have he : e ∈ (w.drain i t.user).gone u := he
    rw [hgone u] at he
    split at he
    · rcases List.mem_append.mp he with he | he
      · exact h.lawful u e he
      · obtain ⟨_, -, rfl⟩ := List.mem_map.mp he
        trivial
    · exact h.lawful u e he
  · show t'.point.answer = (w.drain i t.user).returned t'.user j
    have ht' : ((w.drain i t.user).polls.set i { t with point := point })[j]? = some t' := ht'
    rw [hpolls] at ht'
    rw [hreturned]
    by_cases hij : i = j
    · subst hij
      rw [List.getElem?_set_self (List.getElem?_eq_some_iff.mp ht).1] at ht'
      cases ht'
      rw [if_pos rfl, if_pos rfl, ← h.answers i t ht, hopen]
      exact hanswer
    · rw [List.getElem?_set_ne hij] at ht'
      rw [if_neg (Ne.symm hij), List.append_nil, ite_self]
      exact h.answers j t' ht'
  · have he : (e, Fate.returned j) ∈ (w.drain i t.user).gone u := he
    have hold : ∀ t', w.polls[j]? = some t' → t'.user = u →
        ∃ t'', ((w.drain i t.user).setPoll i t point).polls[j]? = some t'' ∧ t''.user = u := by
      intro t' ht' hu
      obtain ⟨t'', ht'', hu'⟩ := user_set point hw (by rw [hpolls, ht'])
      exact ⟨t'', ht'', hu'.trans hu⟩
    rw [hgone u] at he
    split at he
    · rename_i hu
      rcases List.mem_append.mp he with he | he
      · obtain ⟨t', ht', hu'⟩ := h.taken u e j he
        exact hold t' ht' hu'
      · obtain ⟨_, -, he⟩ := List.mem_map.mp he
        cases he
        exact hold t ht hu.symm
    · obtain ⟨t', ht', hu'⟩ := h.taken u e j he
      exact hold t' ht' hu'

/-! ## The collector, and every step -/

theorem items_gc (w : World) (u : String) :
    w.gc.items u = (w.items u).dropWhile (TooOld w.now) := by
  unfold gc items
  dsimp only
  cases w.inner u with
  | none => rfl
  | some q =>
      dsimp only [Option.bind_some]
      by_cases hempty : q.items.dropWhile (TooOld w.now) = []
      · rw [hempty]
        split
        · rename_i hq
          split at hq <;> cases hq
          rfl
        · rfl
      · rw [if_pos (by simp [hempty])]

theorem Sound.gc (h : w.Sound) : w.gc.Sound := by
  have hreturned : ∀ u j, w.gc.returned u j = w.returned u j := by
    intro u j
    unfold returned World.gc
    dsimp only
    rw [List.filter_append, List.map_append]
    refine (congrArg _ ?_).trans (List.append_nil _)
    rw [List.filter_eq_nil_iff.mpr, List.map_nil]
    intro e he
    obtain ⟨_, -, rfl⟩ := List.mem_map.mp he
    simp
  refine { h with log := fun u => ?_, short := fun u => ?_, lawful := fun u e he => ?_,
                  answers := fun j t ht => ?_, taken := fun u e j he => ?_ }
  · rw [items_gc]
    refine (h.log u).trans ?_
    unfold World.gc
    dsimp only
    rw [List.map_append, List.map_map, Function.comp_def, List.map_id', List.append_assoc,
      List.takeWhile_append_dropWhile]
  · rw [items_gc]
    exact Nat.le_trans (List.dropWhile_sublist _).length_le (h.short u)
  · rcases List.mem_append.mp he with he | he
    · exact h.lawful u e he
    · obtain ⟨e', he', rfl⟩ := List.mem_map.mp he
      have hold : TooOld w.now e' = true := List.mem_takeWhile_imp he'
      unfold TooOld at hold
      have hlt : envelopeTtl < w.now - e'.received := of_decide_eq_true hold
      exact hlt
  · rw [hreturned]
    exact h.answers j t ht
  · rcases List.mem_append.mp he with he | he
    · exact h.taken u e j he
    · obtain ⟨_, -, he⟩ := List.mem_map.mp he
      cases he

theorem Sound.step (h : w.Sound) (hs : w.StepCase l w') : w'.Sound := by
  cases hs with
  | aside => exact h.congr rfl rfl rfl rfl rfl
  | signal hs => exact h.signal hs
  | push hs hpoint => exact h.push hs hpoint
  | wake hs hpoint =>
      rename_i waker
      have hw : ({ w with notifiers := w.notifiers.modify waker Notify.notifyWaiters } : World).Sound :=
        h.congr rfl rfl rfl rfl rfl
      exact hw.setSignal hs (by rw [hpoint]; rfl)
  | signalCancel hs hpoint => exact h.setSignal hs (by rw [hpoint]; rfl)
  | poll hanswer => exact h.poll hanswer
  | pollStep ht hs =>
      cases hs with
      | drained hopen hitems => exact h.drained ht hopen hitems
      | subscribed hpoint =>
          refine (h.entry _).setPoll ?_ (by rw [hpoint]; rfl)
          rw [(entry_aside w _).2.2.1, ht]
      | future hpoint => exact h.setPoll ht (by rw [hpoint]; rfl)
      | woken hpoint => exact h.setPoll ht (by rw [hpoint]; rfl)
  | timeout ht hpoint => exact h.setPoll ht (by rw [hpoint]; rfl)
  | cancel ht hopen => exact h.setPoll ht hopen.symm
  | gc => exact h.gc

theorem sound_reachable {cfg : Config} {now : Nat}
    (hr : Lts.Reach step (fun _ _ => True) (init cfg now) w) : w.Sound :=
  hr.invariant (sound_init cfg now) (fun _ _ _ _ h _ hs => h.step (step_cases hs))

/-! ## Who holds which notifier -/

structure Waking (w : World) : Prop where
  valid : ∀ u q, w.inner u = some q → q.waker < w.notifiers.length
  holding : ∀ t ∈ w.polls, ∀ waker, t.point.waker? = some waker →
    ∃ q, w.inner t.user = some q ∧ q.waker = waker
  before : ∀ t ∈ w.polls, ∀ waker notified, t.point.future? = some (waker, notified) →
    ∃ n, w.notifiers[waker]? = some n ∧ notified.Before n

theorem waking_init (cfg : Config) (now : Nat) : (init cfg now).Waking := by
  refine ⟨?_, ?_, ?_⟩ <;> simp [init]

/-- Queues that are held keep their notifier, and notifiers only count on. -/
structure Keeps (w w' : World) : Prop where
  valid : ∀ u q, w'.inner u = some q → q.waker < w'.notifiers.length
  inner : ∀ t ∈ w.polls, ∀ waker, t.point.waker? = some waker →
    ∀ q, w.inner t.user = some q → q.waker = waker →
      ∃ q', w'.inner t.user = some q' ∧ q'.waker = waker
  notifiers : ∀ (waker : Nat) (n : Notify), w.notifiers[waker]? = some n →
    ∃ n', w'.notifiers[waker]? = some n' ∧ n.calls ≤ n'.calls

theorem Waking.of_keeps (h : w.Waking) (hk : Keeps w w') (hpolls : w'.polls = w.polls) :
    w'.Waking := by
  refine ⟨hk.valid, fun t ht waker hwaker => ?_, fun t ht waker notified hf => ?_⟩
  · rw [hpolls] at ht
    obtain ⟨q, hq, hqw⟩ := h.holding t ht waker hwaker
    exact hk.inner t ht waker hwaker q hq hqw
  · rw [hpolls] at ht
    obtain ⟨n, hn, hbefore⟩ := h.before t ht waker notified hf
    obtain ⟨n', hn', hle⟩ := hk.notifiers waker n hn
    exact ⟨n', hn', Nat.le_trans hbefore hle⟩

theorem Keeps.of_inner (h : w.Waking) (hinner : w'.inner = w.inner)
    (hnotifiers : w'.notifiers = w.notifiers) : Keeps w w' := by
  refine ⟨?_, ?_, ?_⟩
  · rw [hinner, hnotifiers]
    exact h.valid
  · rw [hinner]
    exact fun _ _ _ _ q hq hqw => ⟨q, hq, hqw⟩
  · rw [hnotifiers]
    exact fun _ n hn => ⟨n, hn, Nat.le_refl _⟩

theorem Keeps.trans {w'' : World} (h : Keeps w w') (h' : Keeps w' w'') (hpolls : w'.polls = w.polls) :
    Keeps w w'' := by
  refine ⟨h'.valid, fun t ht waker hwaker q hq hqw => ?_, fun waker n hn => ?_⟩
  · obtain ⟨q', hq', hqw'⟩ := h.inner t ht waker hwaker q hq hqw
    exact h'.inner t (by rw [hpolls]; exact ht) waker hwaker q' hq' hqw'
  · obtain ⟨n', hn', hle⟩ := h.notifiers waker n hn
    obtain ⟨n'', hn'', hle'⟩ := h'.notifiers waker n' hn'
    exact ⟨n'', hn'', Nat.le_trans hle hle'⟩

theorem keeps_entry (h : w.Waking) (user : String) :
    Keeps w (w.entry user).1 ∧ (w.entry user).1.inner user = some (w.entry user).2 := by
  unfold entry
  cases hq : w.inner user with
  | some q => exact ⟨.of_inner h rfl rfl, hq⟩
  | none =>
      refine ⟨⟨fun u q hu => ?_, fun t ht waker hwaker q hq' hqw => ⟨q, ?_, hqw⟩,
        fun waker n hn => ⟨n, ?_, Nat.le_refl _⟩⟩, if_pos rfl⟩
      · show q.waker < (w.notifiers ++ [Notify.new]).length
        have hu : (if u = user then some ⟨[], w.notifiers.length⟩ else w.inner u) = some q := hu
        rw [List.length_append, List.length_singleton]
        split at hu
        · cases hu
          exact Nat.lt_succ_self _
        · exact Nat.lt_succ_of_lt (h.valid u q hu)
      · show (if t.user = user then _ else w.inner t.user) = some q
        rw [if_neg, hq']
        rintro rfl
        rw [hq] at hq'
        cases hq'
      · show (w.notifiers ++ [Notify.new])[waker]? = some n
        rw [List.getElem?_append_left (List.getElem?_eq_some_iff.mp hn).1, hn]

/-- Putting envelopes in or taking them out leaves the notifier. -/
theorem keeps_setItems (h : w.Waking) {q : Queue} (hq : w.inner user = some q)
    (items : List CallEnvelope) (left : List (CallEnvelope × Fate)) :
    Keeps w (w.setItems user q.waker items left) := by
  refine ⟨fun u q' hu => ?_, fun t ht waker hwaker q' hq' hqw => ?_,
    fun _ n hn => ⟨n, hn, Nat.le_refl _⟩⟩
  · have hu : (if u = user then some ⟨items, q.waker⟩ else w.inner u) = some q' := hu
    split at hu
    · cases hu
      exact h.valid user q hq
    · exact h.valid u q' hu
  · by_cases hu : t.user = user
    · rw [hu, hq] at hq'
      cases hq'
      exact ⟨⟨items, q.waker⟩, if_pos hu, hqw⟩
    · exact ⟨q', (if_neg hu).trans hq', hqw⟩

theorem keeps_drain (h : w.Waking) (i : Nat) (user : String) : Keeps w (w.drain i user) := by
  unfold drain
  cases hq : w.inner user with
  | some q => exact keeps_setItems h hq _ _
  | none => exact .of_inner h rfl rfl

theorem keeps_push (h : w.Waking) (i : Nat) (s : SignalTask) : Keeps w (w.push i s) := by
  obtain ⟨hentry, hq⟩ := keeps_entry h s.recver
  have hpolls := (entry_aside w s.recver).2.2.1
  have hset := keeps_setItems (h.of_keeps hentry hpolls) hq
  refine Keeps.trans hentry ?_ hpolls
  exact ⟨(hset _ []).valid, (hset _ []).inner, fun _ n hn => ⟨n, hn, Nat.le_refl _⟩⟩

theorem keeps_gc (h : w.Waking) : Keeps w w.gc := by
  refine ⟨fun u q hu => ?_, fun t ht waker hwaker q hq hqw => ?_,
    fun _ n hn => ⟨n, hn, Nat.le_refl _⟩⟩
  · obtain ⟨q', hq', hkept⟩ := Option.bind_eq_some_iff.mp hu
    dsimp only at hkept
    split at hkept <;> cases hkept
    exact h.valid u q' hq'
  · have hheld : w.held q.waker = true := by
      unfold held
      rw [Bool.or_eq_true, List.any_eq_true]
      exact .inl ⟨t, ht, decide_eq_true (by rw [hwaker, hqw])⟩
    refine ⟨{ q with items := q.items.dropWhile (TooOld w.now) }, ?_, hqw⟩
    unfold gc
    dsimp only
    rw [hq, Option.bind_some, if_pos (by rw [hheld, Bool.or_true])]

theorem Waking.setPoll {point : PollPoint} (h : w.Waking)
    (hwaker : ∀ waker, point.waker? = some waker →
      ∃ q, w.inner t.user = some q ∧ q.waker = waker)
    (hbefore : ∀ waker notified, point.future? = some (waker, notified) →
      ∃ n, w.notifiers[waker]? = some n ∧ notified.Before n) : (w.setPoll i t point).Waking := by
  refine ⟨h.valid, fun t' ht' => ?_, fun t' ht' => ?_⟩
  · rcases List.mem_or_eq_of_mem_set ht' with ht' | rfl
    · exact h.holding t' ht'
    · exact hwaker
  · rcases List.mem_or_eq_of_mem_set ht' with ht' | rfl
    · exact h.before t' ht'
    · exact hbefore

/-- A poll that is over, or that keeps what it holds. -/
theorem Waking.leave {point : PollPoint} (h : w.Waking) (ht : w.polls[i]? = some t)
    (hwaker : ∀ waker, point.waker? = some waker → t.point.waker? = some waker)
    (hfuture : ∀ waker notified, point.future? = some (waker, notified) →
      t.point.future? = some (waker, notified)) : (w.setPoll i t point).Waking := by
  have hmem := List.mem_of_getElem? ht
  exact h.setPoll (fun waker hw => h.holding t hmem waker (hwaker waker hw))
    (fun waker notified hf => h.before t hmem waker notified (hfuture waker notified hf))

theorem keeps_wake (h : w.Waking) (waker : Nat) :
    Keeps w { w with notifiers := w.notifiers.modify waker Notify.notifyWaiters } := by
  refine ⟨fun u q hq => ?_, fun _ _ _ _ q hq hqw => ⟨q, hq, hqw⟩, fun k n hn => ?_⟩
  · rw [List.length_modify]
    exact h.valid u q hq
  · dsimp only
    rw [List.getElem?_modify, hn]
    refine ⟨_, rfl, ?_⟩
    split
    · exact Nat.le_succ _
    · exact Nat.le_refl _

/-- Every step keeps the queues that are held. -/
theorem keeps_step (h : w.Waking) (hs : w.StepCase l w') : Keeps w w' := by
  cases hs with
  | aside => exact .of_inner h rfl rfl
  | signal => exact .of_inner h rfl rfl
  | push => exact keeps_push h _ _
  | wake hs hpoint =>
      rename_i waker
      have hk := keeps_wake h waker
      exact ⟨hk.valid, hk.inner, hk.notifiers⟩
  | signalCancel => exact .of_inner h rfl rfl
  | poll => exact .of_inner h rfl rfl
  | pollStep ht hs =>
      rename_i i t
      cases hs with
      | drained =>
          have hk := keeps_drain h i t.user
          exact ⟨hk.valid, hk.inner, hk.notifiers⟩
      | subscribed =>
          have hk := (keeps_entry h t.user).1
          exact ⟨hk.valid, hk.inner, hk.notifiers⟩
      | future => exact .of_inner h rfl rfl
      | woken => exact .of_inner h rfl rfl
  | timeout => exact .of_inner h rfl rfl
  | cancel => exact .of_inner h rfl rfl
  | gc => exact keeps_gc h

theorem waker_of_future {point : PollPoint} {waker : Nat} {notified : Notified}
    (h : point.future? = some (waker, notified)) : point.waker? = some waker := by
  cases point <;> cases h <;> rfl

theorem Waking.step (h : w.Waking) (hs : w.StepCase l w') : w'.Waking := by
  have hk := keeps_step h hs
  cases hs with
  | aside => exact h.of_keeps hk rfl
  | signal => exact h.of_keeps hk rfl
  | push => exact h.of_keeps hk (entry_aside w _).2.2.1
  | wake => exact h.of_keeps hk rfl
  | signalCancel => exact h.of_keeps hk rfl
  | poll hanswer hwaker =>
      refine ⟨h.valid, fun t' ht' => ?_, fun t' ht' => ?_⟩
      · rcases List.mem_append.mp ht' with ht' | ht'
        · exact h.holding t' ht'
        · cases List.mem_singleton.mp ht'
          intro waker hw
          rw [hwaker] at hw
          cases hw
      · rcases List.mem_append.mp ht' with ht' | ht'
        · exact h.before t' ht'
        · cases List.mem_singleton.mp ht'
          intro waker notified hf
          rw [waker_of_future hf] at hwaker
          cases hwaker
  | pollStep ht hs =>
      rename_i i t
      cases hs with
      | drained _ _ _ hpoint =>
          have hpolls := (drain_spec w i t.user).2.2.2.1
          refine (h.of_keeps (keeps_drain h i t.user) hpolls).leave (by rw [hpolls, ht]) ?_ ?_
          · intro waker hw
            rcases hpoint with hnone | ⟨waker', notified, hsecond, rfl⟩
            · rw [hnone] at hw
              cases hw
            · rw [hsecond]
              exact hw
          · intro waker notified hf
            rcases hpoint with hnone | ⟨waker', notified', hsecond, rfl⟩
            · rw [waker_of_future hf] at hnone
              cases hnone
            · rw [hsecond]
              exact hf
      | subscribed =>
          obtain ⟨hkeep, hq⟩ := keeps_entry h t.user
          refine (h.of_keeps hkeep (entry_aside w t.user).2.2.1).setPoll (fun waker hw => ?_)
            (fun _ _ hf => by cases hf)
          cases hw
          exact ⟨_, hq, rfl⟩
      | future hpoint =>
          rename_i waker
          obtain ⟨q, hq, hqw⟩ := h.holding t (List.mem_of_getElem? ht) waker (by rw [hpoint]; rfl)
          have hlt : waker < w.notifiers.length := by
            rw [← hqw]
            exact h.valid _ _ hq
          refine h.setPoll (fun waker' hw => ?_) (fun waker' notified hf => ?_)
          · cases hw
            exact ⟨q, hq, hqw⟩
          · cases hf
            refine ⟨_, List.getElem?_eq_getElem hlt, ?_⟩
            rw [List.getElem?_eq_getElem hlt, Option.getD_some]
            exact Notified.before_notified
      | woken hpoint =>
          exact h.leave ht (fun _ hw => by rw [hpoint]; exact hw) (fun _ _ hf => by cases hf)
  | timeout ht hpoint =>
      exact h.leave ht (fun _ hw => by rw [hpoint]; exact hw) (fun _ _ hf => by cases hf)
  | cancel ht => exact h.leave ht (fun _ hw => by cases hw) (fun _ _ hf => by cases hf)
  | gc => exact h.of_keeps hk rfl

/-! ## A poll that has its future is woken -/

/-- The request is about to wake the poll, or the poll is woken or past its wait. -/
def Roused (w : World) (i j : Nat) : Prop :=
  ∃ t, w.polls[i]? = some t ∧ t.point.Ahead = true
    ∧ ∀ waker notified, t.point.future? = some (waker, notified) →
      (∃ s, w.signals[j]? = some s ∧ s.point = .wake waker) ∨ w.Woken waker notified

theorem Woken.mono (hk : Keeps w w') {waker : Nat} {notified : Notified}
    (h : w.Woken waker notified) : w'.Woken waker notified := by
  obtain ⟨n, hn, hready⟩ := h
  obtain ⟨n', hn', hle⟩ := hk.notifiers waker n hn
  exact ⟨n', hn', Nat.lt_of_lt_of_le hready hle⟩

/-- A request that is about to wake somebody still is, or has. -/
theorem wake_step {m : Nat} (hstep : w.StepCase l w') (hs : w.signals[j]? = some s)
    (hpoint : s.point = .wake m) :
    (∃ s', w'.signals[j]? = some s' ∧ s'.point = .wake m)
      ∨ w'.notifiers = w.notifiers.modify m Notify.notifyWaiters := by
  have hset : ∀ {k : Nat} {s₁ : SignalTask} (s₂ : SignalTask), w.signals[k]? = some s₁ →
      s₁.point = .push → (w.signals.set k s₂)[j]? = some s := by
    intro k s₁ s₂ hs₁ hpush
    rw [List.getElem?_set_ne, hs]
    rintro rfl
    rw [hs] at hs₁
    cases hs₁
    rw [hpoint] at hpush
    cases hpush
  cases hstep with
  | aside => exact .inl ⟨s, hs, hpoint⟩
  | signal =>
      refine .inl ⟨s, ?_, hpoint⟩
      rw [List.getElem?_append_left (List.getElem?_eq_some_iff.mp hs).1, hs]
  | push hs₁ hpush =>
      refine .inl ⟨s, ?_, hpoint⟩
      unfold World.push
      dsimp only
      rw [(entry_aside w _).2.1]
      exact hset _ hs₁ hpush
  | wake hs₁ hwake =>
      rename_i k s₁ m'
      by_cases hkj : k = j
      · subst hkj
        rw [hs] at hs₁
        cases hs₁
        rw [hpoint] at hwake
        cases hwake
        exact .inr rfl
      · refine .inl ⟨s, ?_, hpoint⟩
        exact (List.getElem?_set_ne hkj).trans hs
  | signalCancel hs₁ hpush => exact .inl ⟨s, hset _ hs₁ hpush, hpoint⟩
  | poll => exact .inl ⟨s, hs, hpoint⟩
  | pollStep ht hcase =>
      rename_i i t
      refine .inl ⟨s, ?_, hpoint⟩
      cases hcase with
      | drained => exact (congrArg (·[j]?) (drain_spec w i t.user).2.2.1).trans hs
      | subscribed => exact (congrArg (·[j]?) (entry_aside w t.user).2.1).trans hs
      | future => exact hs
      | woken => exact hs
  | timeout => exact .inl ⟨s, hs, hpoint⟩
  | cancel => exact .inl ⟨s, hs, hpoint⟩
  | gc => exact .inl ⟨s, hs, hpoint⟩

/-- A poll that has its future keeps it until it waits no more. -/
theorem ahead_step (hstep : w.StepCase l w') (ht : w.polls[i]? = some t)
    (hahead : t.point.Ahead = true) :
    ∃ t', w'.polls[i]? = some t' ∧ t'.point.Ahead = true
      ∧ ∀ e, t'.point.future? = some e → t.point.future? = some e := by
  have hsame : ∀ {polls : List PollTask}, polls[i]? = some t → ∃ t', polls[i]? = some t'
      ∧ t'.point.Ahead = true ∧ ∀ e, t'.point.future? = some e → t.point.future? = some e :=
    fun ht => ⟨t, ht, hahead, fun _ he => he⟩
  have hset : ∀ {k : Nat} {t₁ : PollTask} {point : PollPoint}, w.polls[k]? = some t₁ →
      (t₁.point.Ahead = true → point.Ahead = true
        ∧ ∀ e, point.future? = some e → t₁.point.future? = some e) →
      ∃ t', (w.polls.set k { t₁ with point := point })[i]? = some t' ∧ t'.point.Ahead = true
        ∧ ∀ e, t'.point.future? = some e → t.point.future? = some e := by
    intro k t₁ point ht₁ hmove
    by_cases hki : k = i
    · subst hki
      rw [ht] at ht₁
      cases ht₁
      have hmove := hmove hahead
      exact ⟨_, List.getElem?_set_self (List.getElem?_eq_some_iff.mp ht).1, hmove.1, hmove.2⟩
    · exact hsame ((List.getElem?_set_ne hki).trans ht)
  cases hstep with
  | aside => exact hsame ht
  | signal => exact hsame ht
  | push => exact hsame ((congrArg (·[i]?) (entry_aside w _).2.2.1).trans ht)
  | wake => exact hsame ht
  | signalCancel => exact hsame ht
  | poll =>
      refine hsame ?_
      rw [List.getElem?_append_left (List.getElem?_eq_some_iff.mp ht).1, ht]
  | pollStep ht₁ hcase =>
      rename_i k t₁
      cases hcase with
      | drained _ _ hmove hpoint =>
          have hpolls := (drain_spec w k t₁.user).2.2.2.1
          unfold World.setPoll
          rw [hpolls]
          refine hset ht₁ (fun ha => ⟨hmove ha, fun e he => ?_⟩)
          rcases hpoint with hnone | ⟨waker, notified, hsecond, rfl⟩
          · rw [waker_of_future he] at hnone
            cases hnone
          · rw [hsecond]
            exact he
      | subscribed hpoint =>
          have hpolls := (entry_aside w t₁.user).2.2.1
          unfold World.setPoll
          rw [hpolls]
          exact hset ht₁ (fun ha => by rw [hpoint] at ha; cases ha)
      | future hpoint => exact hset ht₁ (fun ha => by rw [hpoint] at ha; cases ha)
      | woken => exact hset ht₁ (fun _ => ⟨rfl, fun _ he => by cases he⟩)
  | timeout ht₁ => exact hset ht₁ (fun _ => ⟨rfl, fun _ he => by cases he⟩)
  | cancel ht₁ => exact hset ht₁ (fun _ => ⟨rfl, fun _ he => by cases he⟩)
  | gc => exact hsame ht

theorem Roused.step (hw : w.Waking) (h : w.Roused i j) (hs : w.StepCase l w') : w'.Roused i j := by
  obtain ⟨t, ht, hahead, hfuture⟩ := h
  obtain ⟨t', ht', hahead', hsame⟩ := ahead_step hs ht hahead
  refine ⟨t', ht', hahead', fun waker notified hf => ?_⟩
  have hf := hsame _ hf
  rcases hfuture waker notified hf with ⟨s, hs₁, hpoint⟩ | hwoken
  · rcases wake_step hs hs₁ hpoint with hstill | hnotified
    · exact .inl hstill
    · -- this is the call the poll waits for
      obtain ⟨n, hn, hbefore⟩ := hw.before t (List.mem_of_getElem? ht) waker notified hf
      refine .inr ⟨n.notifyWaiters, ?_, hbefore.ready⟩
      rw [hnotified, List.getElem?_modify, hn]
      simp
  · exact .inr (hwoken.mono (keeps_step hw hs))

theorem waking_reachable {cfg : Config} {now : Nat}
    (hr : Lts.Reach step (fun _ _ => True) (init cfg now) w) : w.Waking :=
  hr.invariant (waking_init cfg now) (fun _ _ _ _ h _ hs => h.step (step_cases hs))

/-- A poll that has its future when an envelope for its user is put in the queue does not wait
unwoken once that request has woken whom it has to. -/
def Wakes (w : World) : Prop :=
  ∀ (i : Nat) (t : PollTask), w.polls[i]? = some t → t.point.future? ≠ none →
    ∀ (j : Nat) (s : SignalTask) (w₁ : World), w.signals[j]? = some s → s.point = .push →
      s.recver = t.user → w.step (.signalStep j) = some w₁ →
        ∀ w₂, Lts.Reach step (fun _ _ => True) w₁ w₂ →
          (∀ s', w₂.signals[j]? = some s' → s'.point.waker? = none) →
            ∀ (t' : PollTask) (waker : Nat) (notified : Notified), w₂.polls[i]? = some t' →
              t'.point = .wait waker notified → w₂.Woken waker notified

theorem entry_of_some {q : Queue} (hq : w.inner user = some q) : w.entry user = (w, q) := by
  unfold entry
  rw [hq]

/-- Putting an envelope in a queue rouses who holds its notifier. -/
theorem roused_push (hw : w.Waking) (ht : w.polls[i]? = some t) (hfuture : t.point.future? ≠ none)
    (hs : w.signals[j]? = some s) (hu : s.recver = t.user) : (w.push j s).Roused i j := by
  obtain ⟨⟨waker, notified⟩, hf⟩ := Option.ne_none_iff_exists'.mp hfuture
  obtain ⟨q, hq, hqw⟩ := hw.holding t (List.mem_of_getElem? ht) waker (waker_of_future hf)
  have hentry : w.entry s.recver = (w, q) := entry_of_some (by rw [hu, hq])
  refine ⟨t, ?_, ?_, fun waker' notified' hf' => .inl ?_⟩
  · exact (congrArg (·[i]?) (entry_aside w s.recver).2.2.1).trans ht
  · cases hp : t.point <;> rw [hp] at hf <;> cases hf <;> rfl
  · rw [hf] at hf'
    cases hf'
    refine ⟨{ s with point := .wake q.waker }, ?_, by rw [hqw]⟩
    unfold push
    rw [hentry]
    exact List.getElem?_set_self (List.getElem?_eq_some_iff.mp hs).1

theorem Waking.wakes (hw : w.Waking) : w.Wakes := by
  intro i t ht hfuture j s w₁ hs hpoint hu hstep w₂ hr hdone t' waker notified ht' hwait
  have hcase := step_cases hstep
  have hw₁ : w₁ = w.push j s := by
    obtain ⟨s', hs', hstep⟩ := Option.bind_eq_some_iff.mp hstep
    rw [hs] at hs'
    cases hs'
    unfold stepSignal at hstep
    rw [hpoint] at hstep
    exact (Option.some.inj hstep).symm
  have hstart : w₁.Waking ∧ w₁.Roused i j :=
    ⟨hw.step hcase, by rw [hw₁]; exact roused_push hw ht hfuture hs hu⟩
  have hend := hr.invariant (P := fun w => w.Waking ∧ w.Roused i j) hstart
    (fun _ _ _ _ h _ hs => ⟨h.1.step (step_cases hs), h.2.step h.1 (step_cases hs)⟩)
  obtain ⟨t'', ht'', -, hfuture''⟩ := hend.2
  rw [ht'] at ht''
  cases ht''
  rcases hfuture'' waker notified (by rw [hwait]; rfl) with ⟨s', hs', hwake⟩ | hwoken
  · have := hdone s' hs'
    rw [hwake] at this
    cases this
  · exact hwoken

/-- A poll that looks into the queue leaves it empty, and answers with all that was in it. -/
def Drains (w : World) : Prop :=
  ∀ (i : Nat) (t : PollTask) (w' : World), w.polls[i]? = some t → t.point.Looks = true →
    w.step (.pollStep i) = some w' → w'.items t.user = [] ∧ ∃ point,
      w'.polls[i]? = some { t with point := point } ∧
        (w.items t.user ≠ [] → point = .answered (w.items t.user))

theorem items_drain (w : World) (i : Nat) (user : String) : (w.drain i user).items user = [] :=
  ((drain_spec w i user).1 user).trans (if_pos rfl)

theorem drained_poll (ht : w.polls[i]? = some t) (point : PollPoint) :
    ((w.drain i t.user).setPoll i t point).polls[i]? = some { t with point := point } := by
  have hpolls : ((w.drain i t.user).setPoll i t point).polls
      = w.polls.set i { t with point := point } := by
    unfold setPoll
    rw [(drain_spec w i t.user).2.2.2.1]
  rw [hpolls, List.getElem?_set_self (List.getElem?_eq_some_iff.mp ht).1]

theorem drains (w : World) : w.Drains := by
  intro i t w' ht hlooks hs
  simp only [step, ht, Option.bind_some] at hs
  unfold stepPoll at hs
  cases hpoint : t.point with
  | first =>
      simp only [hpoint] at hs
      split at hs
      · cases hs
        exact ⟨items_drain w i t.user, _, drained_poll ht _, fun _ => rfl⟩
      · rename_i hnone
        split at hs <;> cases hs <;>
          exact ⟨items_drain w i t.user, _, drained_poll ht _, fun h => absurd h hnone⟩
  | second waker notified =>
      simp only [hpoint] at hs
      split at hs <;> cases hs
      · exact ⟨items_drain w i t.user, _, drained_poll ht _, fun _ => rfl⟩
      · rename_i hnone
        exact ⟨items_drain w i t.user, _, drained_poll ht _, fun h => absurd h hnone⟩
  | last waker =>
      simp only [hpoint] at hs
      cases hs
      exact ⟨items_drain w i t.user, _, drained_poll ht _, fun _ => rfl⟩
  | _ =>
      rw [hpoint] at hlooks
      cases hlooks

/-- **The mailboxes are safe** in every run: what was accepted has left its queue from the front or
is in it, each poll has answered with what it took, nothing else is dropped but what is too old or
first in a full queue, no poll is left waiting for what was accepted, and one that looks answers
with all there is. -/
theorem mailbox_safe {cfg : Config} {now : Nat}
    (hr : Lts.Reach step (fun _ _ => True) (init cfg now) w) : w.Sound ∧ w.Wakes ∧ w.Drains :=
  ⟨sound_reachable hr, (waking_reachable hr).wakes, drains w⟩

/-! ## A call that is waited for -/

section Example

def twoUsers : Config := ⟨["alice", "bob"], 0⟩

def alicePoll : Signature :=
  ⟨"alice", (SignedRequest.callPoll "alice" 1 30000).text⟩

def bobSignal : Signature :=
  ⟨"bob", (SignedRequest.callSignal "bob" "alice" 1 0 "AA==").text⟩

/-- Alice has polled and waits; Bob's request is checked, and its envelope not yet in the queue. -/
def waitingRun : List Label :=
  [.poll "alice" 1 30000 alicePoll, .pollStep 0, .pollStep 0, .pollStep 0, .pollStep 0, .gc,
    .signal "bob" "alice" 1 0 "AA==" bobSignal]

def waitingWorld : World :=
  (Lts.execWhile step (fun _ _ => True) (init twoUsers 0) waitingRun).getD (init twoUsers 0)

def signalledWorld : World := (waitingWorld.step (.signalStep 0)).getD waitingWorld

def answeredWorld : World := (signalledWorld.step (.signalStep 0)).getD signalledWorld

/-- Once it is, and Bob has been answered, Alice is woken. -/
theorem mailbox_safe_waitingRun :
    waitingWorld.Sound ∧ answeredWorld.envelopes "alice" = [⟨"bob", 1, [0], 0, 0⟩]
      ∧ answeredWorld.Woken 0 ⟨0⟩ := by
  have h : (Lts.execWhile step (fun _ _ => True) (init twoUsers 0) waitingRun).isSome = true := by
    decide +kernel
  have hpush : waitingWorld.step (.signalStep 0) = some signalledWorld :=
    (Option.getD_of_ne_none (by decide +kernel) _).symm
  have hwake : signalledWorld.step (.signalStep 0) = some answeredWorld :=
    (Option.getD_of_ne_none (by decide +kernel) _).symm
  obtain ⟨hsound, hwakes, -⟩ := mailbox_safe (Lts.reach_getD h)
  refine ⟨hsound, by decide +kernel, ?_⟩
  exact hwakes 0 ⟨"alice", 30000, .wait 0 ⟨0⟩⟩ (by decide +kernel) (by decide) 0
    ⟨"alice", ⟨"bob", 1, [0], 0, 0⟩, .push⟩ signalledWorld (by decide +kernel) rfl rfl hpush
    answeredWorld (.tail .refl trivial hwake) (by decide +kernel) ⟨"alice", 30000, .wait 0 ⟨0⟩⟩ 0 ⟨0⟩
    (by decide +kernel) rfl

end Example

end World

end Mailbox

end Paranoia
