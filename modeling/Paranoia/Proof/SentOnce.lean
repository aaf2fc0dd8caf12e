import Paranoia.Proof.Provenance

/-!
# One call, one packet

A call of `send` pushes one packet, and on a conflict receives and composes the message anew,
with another id and another number. A conflict says that the number is taken, not by whom: when
the answer to a push is lost and the push is repeated at the reserve address, the packet in the
way is the one the call itself has just stored, and the message is sent twice
(`sent_twice`).

`Single` says where that leaves a call as long as none is refused because of its own packet: what
was accepted of it is the packet it composed last, and nothing was accepted of a call that is about
to compose. The rows follow: the ids of a call's packets are its own, and a row has the id of a
packet that was accepted (`sentOnce_reachable`).
-/

namespace Paranoia

variable {κ π : Type} {n : Nat}

/-- The packet a notice is about, if a packet was composed. -/
def Notice.composed? : Notice π → Option (Nat × PacketInner × π)
  | .composed seq inner payload => some (seq, inner, payload)
  | _ => none

/-- The call of `send` has not composed a packet yet, or composes it anew. -/
def Outer.composing : Outer π → Bool
  | .notify _ => true
  | .compose _ _ => true
  | _ => false

namespace World

section Defs

variable (w : World π n)

/-- The packets a call has composed, in order. -/
def attempts (id : Nat) : List (Nat × PacketInner × π) :=
  w.log.filterMap (fun
    | .notice _ job what => if job = id then what.composed? else none
    | _ => none)

/-- The call sends a message: what it composed is no part of an upload. -/
def IsSend (id : Nat) : Prop := ∃ a ∈ w.attempts id, a.2.1.content.isSendable = true

instance (id : Nat) : Decidable (w.IsSend id) :=
  inferInstanceAs (Decidable (∃ a ∈ w.attempts id, a.2.1.content.isSendable = true))

/-- The push of the packet the call composed last. -/
def Latest (id : Nat) (req : PushRequest π) : Prop :=
  (w.attempts id).getLast?.map (fun a => (a.1, a.2.2)) = some (req.seq, req.payload)

instance [DecidableEq π] (id : Nat) (req : PushRequest π) : Decidable (w.Latest id req) :=
  inferInstanceAs (Decidable (_ = _))

/-- The number of the push is taken. -/
def Taken (req : PushRequest π) : Prop :=
  (w.server.store.get req.dialogue req.seq).isSome = true

instance (req : PushRequest π) : Decidable (w.Taken req) := inferInstanceAs (Decidable (_ = true))

/-- A call of `send` that is refused is not refused because of a packet of its own, and a push that
arrives late finds its number taken, or is that of the latest attempt of a call that is not about to
make another. -/
def UnmistakenStep (l : Label π n) : Prop :=
  l.isRelay = false ∧ l.isRaw = false ∧
    match l with
    | .push id => w.IsSend id → ∀ a ∈ w.incoming (.push id), w.Taken a.2 →
        ∀ b ∈ w.accepted, b.1 = some id → b.2.seq ≠ a.2.seq
    | .arrive i => ∀ f ∈ w.net[i]?, w.Taken f.req ∨
        ((w.IsSend f.job → w.Latest f.job f.req)
          ∧ ∀ job ∈ w.jobs, job.id = f.job → job.task.outer.composing = false)
    | _ => True

instance [DecidableEq π] (l : Label π n) : Decidable (w.UnmistakenStep l) := by
  unfold UnmistakenStep
  refine @instDecidableAnd _ _ _ (@instDecidableAnd _ _ _ ?_)
  split <;> infer_instance

/-- Of each call of `send` at most one packet was ever accepted. -/
def PushedOnce : Prop :=
  ∀ id, w.IsSend id → ∀ req req', (some id, req) ∈ w.accepted → (some id, req') ∈ w.accepted →
    req.seq = req'.seq ∧ req.payload = req'.payload

/-- No device stores what one call of `send` composed in two rows. -/
def StoredOnce : Prop :=
  ∀ d, ∀ m ∈ (w.store d).messages, ∀ m' ∈ (w.store d).messages,
    ∀ id, ∀ a ∈ w.attempts id, ∀ a' ∈ w.attempts id,
      a.2.1.content.isSendable = true → a'.2.1.content.isSendable = true →
      m.Shows a.2.1 → m'.Shows a'.2.1 → m = m'

end Defs

variable {w w' : World π n}

theorem mem_attempts {id seq : Nat} {inner : PacketInner} {payload : π} :
    (seq, inner, payload) ∈ w.attempts id ↔ ∃ d, .notice d id (.composed seq inner payload) ∈ w.log := by
  simp only [attempts, List.mem_filterMap]
  constructor
  · rintro ⟨e, he, h⟩
    cases e with
    | accepted => cases h
    | notice d job what =>
        dsimp only at h
        split at h
        · rename_i hjob
          subst hjob
          cases what with
          | composed seq' inner' payload' =>
              cases h
              exact ⟨d, he⟩
          | _ => cases h
        · cases h
  · rintro ⟨d, he⟩
    exact ⟨_, he, by simp [Notice.composed?]⟩

/-- What a call adds to the log adds to its own attempts. -/
theorem attempts_append {d : Fin n} {job id : Nat} {notices : List (Notice π)}
    (hlog : w'.log = w.log ++ notices.map (.notice d job)) :
    w'.attempts id = w.attempts id ++ if job = id then notices.filterMap Notice.composed? else [] := by
  unfold attempts
  rw [hlog, List.filterMap_append, List.filterMap_map]
  congr 1
  by_cases h : job = id
  · rw [if_pos h]
    refine List.filterMap_congr (fun what _ => ?_)
    simp [h]
  · rw [if_neg h, List.filterMap_eq_nil_iff]
    intro what _
    simp [h]

theorem attempts_accepted {id : Nat} {job : Option Nat} {req : PushRequest π}
    (hlog : w'.log = w.log ++ [.accepted job req]) : w'.attempts id = w.attempts id := by
  unfold attempts
  rw [hlog, List.filterMap_append]
  simp

theorem attempts_serve (job : Option Nat) (req : PushRequest π) (id : Nat) :
    (w.serve job req).1.attempts id = w.attempts id := by
  rcases serve_cases w job req with ⟨_, _, _, _, hserve, _⟩ | ⟨_, hserve⟩
  · rw [hserve]
    exact attempts_accepted rfl
  · rw [hserve]

/-! ## What a step composes -/

theorem packet_rowId {c : Client κ} {t : OutboundTransfer} {i : Nat} {inner : PacketInner}
    (h : t.packet c i = some inner) :
    inner.content.isSendable = false ∧ inner.rowId = t.transferId := by
  cases i with
  | zero =>
      cases h
      exact ⟨rfl, rfl⟩
  | succ i =>
      simp only [OutboundTransfer.packet, Option.bind_eq_some_iff, Option.map_eq_some_iff] at h
      obtain ⟨_, _, _, _, rfl⟩ := h
      exact ⟨rfl, rfl⟩

theorem rowId_of_sendable {inner : PacketInner} (h : inner.content.isSendable = true) :
    inner.rowId = inner.id := by
  unfold PacketInner.rowId
  split
  · rename_i hc
    rw [hc] at h
    cases h
  · rename_i hc
    rw [hc] at h
    cases h
  · rfl

theorem OuterStep.composed_only [Aead κ π] {c : Client κ} {env : Env} {st : LocalStore}
    {outer : Outer π} {out : Local π} (h : OuterStep c env st outer out) :
    out.notices.filterMap Notice.composed? = []
      ∨ ∃ seq inner payload, out.notices = [.composed seq inner payload] := by
  cases h with
  | compose | push => exact Or.inr ⟨_, _, _, rfl⟩
  | _ => exact Or.inl rfl

/-- A packet that is composed is an attempt of `send`, or belongs to a transfer. -/
theorem OuterStep.composing [Aead κ π] {c : Client κ} {env : Env} {st : LocalStore}
    {outer : Outer π} {out : Local π} (h : OuterStep c env st outer out) {seq : Nat}
    {inner : PacketInner} {payload : π} (hc : .composed seq inner payload ∈ out.notices) :
    outer.composing = true ∨ (outer.send? = none ∧ inner.content.isSendable = false) := by
  cases h with
  | compose => exact Or.inl rfl
  | @push _ t _ i _ _ _ hinner _ =>
      cases List.mem_singleton.mp hc
      exact Or.inr ⟨rfl, (packet_rowId hinner).1⟩
  | reserve | markSent => cases List.mem_singleton.mp hc
  | _ => cases hc

/-- A call of `send` that goes on is still one. -/
theorem OuterStep.send_on [Aead κ π] {c : Client κ} {env : Env} {st : LocalStore} {outer : Outer π}
    {out : Local π} (h : OuterStep c env st outer out) {task : Task π}
    (htask : out.task = some task) (hs : outer.send?.isSome = true) :
    task.outer.send?.isSome = true := by
  cases h with
  | compose =>
      cases htask
      rfl
  | ends | save => cases htask
  | _ => cases hs

section Answers

variable {outer : Outer π} {task : Task π}

theorem not_composing (h : outer.send? = none) : outer.composing = false := by
  cases outer with
  | notify | compose => cases h
  | _ => rfl

theorem request_not_composing {req : PushRequest π} (h : Task.request outer = some req) :
    outer.composing = false := by
  cases outer with
  | notify | compose => cases h
  | _ => rfl

/-- No step of its own makes a call compose anew. -/
theorem OuterStep.not_composing [Aead κ π] {c : Client κ} {env : Env} {st : LocalStore}
    {out : Local π} (h : OuterStep c env st outer out) (htask : out.task = some task) :
    task.outer.composing = false := by
  cases h with
  | ends | save => cases htask
  | stuck => exact World.not_composing (transferError_idle (Or.inl htask)).2
  | @markSent _ t => exact World.not_composing (transferError_idle (t := t) (Or.inr htask)).2
  | _ =>
      cases htask
      rfl

theorem onPushResult_send_on {since : Nat} {result : PushResult}
    (h : Task.onPushResult since outer result = some (some task)) (hs : outer.send?.isSome = true) :
    task.outer.send?.isSome = true := by
  cases outer with
  | sending =>
      cases result <;> cases h
      · rfl
      · rfl
  | transferring => cases hs
  | _ => cases h

/-- It takes a conflict to make a call compose anew. -/
theorem onPushResult_composing {since : Nat} {result : PushResult}
    (h : Task.onPushResult since outer result = some (some task))
    (hc : task.outer.composing = true) :
    result = .conflict ∧ ∃ call tries id p, outer = .sending call tries id p := by
  cases outer with
  | sending call tries id p =>
      cases result <;> cases h
      · cases hc
      · exact ⟨rfl, call, tries, id, p, rfl⟩
  | transferring mode t present i p =>
      have hidle : Task.transferError mode t = some task → task.outer.composing = false :=
        fun h => not_composing (transferError_idle (Or.inl h)).2
      cases result with
      | ok =>
          cases h
          cases hc
      | conflict =>
          rw [hidle (Option.some.inj h)] at hc
          cases hc
      | failed =>
          rw [hidle (Option.some.inj h)] at hc
          cases hc
  | _ => cases h

theorem onTimeout_send_on {retry : Bool} (h : Task.onTimeout retry outer = some (some task)) :
    (outer.send?.isSome = true → task.outer.send?.isSome = true) ∧ task.outer.composing = false := by
  unfold Task.onTimeout at h
  split at h
  · split at h
    · cases h
      exact ⟨fun _ => rfl, rfl⟩
    · cases h
  · refine ⟨fun hs => (by cases hs), ?_⟩
    split at h
    · cases h
      rfl
    · exact not_composing (transferError_idle (Or.inl (Option.some.inj h))).2
  · cases h

/-- A push that is refused before the store is asked is no conflict. -/
theorem refusePush_no_conflict {users : List String} {req : PushRequest π} {msg : String}
    (h : Server.refusePush users req = some msg) : pushResult (fail msg) ≠ .conflict := by
  have hmsg : msg = "Bad cover" ∨ msg = "One user in pair not registered"
      ∨ msg = "Invalid signature" := by
    unfold Server.refusePush at h
    split at h
    · exact Or.inl (Option.some.inj h).symm
    · split at h
      · exact Or.inr (Or.inl (Option.some.inj h).symm)
      · split at h
        · exact Or.inr (Or.inl (Option.some.inj h).symm)
        · split at h
          · exact Or.inr (Or.inr (Option.some.inj h).symm)
          · cases h
  rcases hmsg with rfl | rfl | rfl <;> decide

/-- A conflict says that the number is taken. -/
theorem conflict_taken {job : Option Nat} {req : PushRequest π}
    (h : pushResult (w.serve job req).2 = .conflict) : w.Taken req ∧ ¬ w.Accepts req := by
  rcases serve_cases w job req with ⟨_, _, _, _, _, hok⟩ | ⟨hno, _⟩
  · rw [hok] at h
    cases h
  · refine ⟨?_, hno⟩
    change pushResult (w.server.doPush req).2 = .conflict at h
    unfold Server.doPush at h
    split at h
    · rename_i msg hmsg
      exact absurd h (refusePush_no_conflict hmsg)
    · unfold PacketStore.push at h
      unfold Taken
      cases hget : w.server.store.get req.dialogue req.seq with
      | some data => rfl
      | none =>
          rw [hget] at h
          exact absurd h (by decide : pushResult (ok "OK") ≠ .conflict)

end Answers

/-- A call composes a packet in this step. -/
structure Composes [Aead κ π] (cfg : Setup κ n) (w : World π n) (l : Label π n) (w' : World π n)
    (job : Job π n) (seq : Nat) (inner : PacketInner) (payload : π) : Prop where
  mem : job ∈ w.jobs
  step : ∃ env out, l = .localStep job.id env
    ∧ OuterStep (cfg.device job.dev) env (w.store job.dev) job.task.outer out
    ∧ (∀ i ∈ out.issued, w.isFresh i.1 = true) ∧ out.notices = [.composed seq inner payload]
    ∧ w' = (w.moved job out.store out.task out.notices).issue job.dev out.issued
  attempts : ∀ id, w'.attempts id = w.attempts id ++ if job.id = id then [(seq, inner, payload)] else []

section Step

variable [Aead κ π] {cfg : Setup κ n} {l : Label π n}

theorem attempts_moved {job : Job π n} {st : LocalStore} {task : Option (Task π)}
    {notices : List (Notice π)} (hnone : notices.filterMap Notice.composed? = []) (id : Nat) :
    (w.moved job st task notices).attempts id = w.attempts id := by
  have hlog : (w.moved job st task notices).log = w.log ++ notices.map (.notice job.dev job.id) :=
    moved_log
  rw [attempts_append hlog, hnone]
  simp

theorem attempts_setTask {job : Job π n} {task : Option (Task π)} (id : Nat) :
    (w.setTask job task).attempts id = w.attempts id := by
  unfold attempts
  rw [setTask_log]

/-- **One step adds to the attempts of one call at most.** -/
theorem attempts_step (h : StepCase cfg w l w') :
    (∀ id, w'.attempts id = w.attempts id)
      ∨ ∃ job seq inner payload, Composes cfg w l w' job seq inner payload := by
  cases h with
  | @outer job env out hjob hrx hstep hfresh =>
      have hlog : ((w.moved job out.store out.task out.notices).issue job.dev out.issued).log
          = w.log ++ out.notices.map (.notice job.dev job.id) := step_log rfl
      rcases OuterStep.composed_only hstep with hnone | ⟨seq, inner, payload, hone⟩
      · refine Or.inl (fun id => ?_)
        rw [attempts_append hlog, hnone]
        simp
      · refine Or.inr ⟨job, seq, inner, payload, hjob,
          ⟨env, out, rfl, hstep, hfresh, hone, rfl⟩, fun id => ?_⟩
        rw [attempts_append hlog, hone]
        rfl
  | run env hjob hrx hmove =>
      refine Or.inl (attempts_moved ?_)
      cases hmove <;> rfl
  | finish | fails | relayMap | relayPull => exact Or.inl (attempts_moved rfl)
  | push => exact Or.inl (fun id => (attempts_setTask id).trans (attempts_serve _ _ id))
  | arrive => exact Or.inl (fun id => attempts_serve _ _ id)
  | raw => exact Or.inl (fun id => attempts_serve _ _ id)
  | timeout | notified | existing | timeoutExisting | kill => exact Or.inl (fun id => attempts_setTask id)
  | start | remove => exact Or.inl (fun _ => rfl)

/-! ## Calls have numbers of their own -/

/-- Whatever belongs to a call belongs to one that has begun. -/
structure Numbered (w : World π n) : Prop where
  jobs : ∀ job ∈ w.jobs, job.id < w.nextJob
  net : ∀ f ∈ w.net, f.job < w.nextJob
  accepted : ∀ id req, (some id, req) ∈ w.accepted → id < w.nextJob
  attempts : ∀ id, w.nextJob ≤ id → w.attempts id = []

theorem nextJob_step (h : StepCase cfg w l w') : w.nextJob ≤ w'.nextJob := by
  have hserve : ∀ (w₁ : World π n) (id : Option Nat) (req : PushRequest π),
      (w₁.serve id req).1.nextJob = w₁.nextJob := fun _ _ _ => rfl
  cases h with
  | start => exact Nat.le_succ _
  | push => exact le_of_eq (by rw [setTask_nextJob, hserve])
  | outer | run | finish | fails | relayMap | relayPull =>
      exact le_of_eq (by simp [moved, note, setStore, issue])
  | notified | existing | timeout | timeoutExisting | kill => exact le_of_eq (by simp [delay])
  | arrive | raw | remove => exact le_refl _

/-- A call of the new world has the number of an old one, or the next one. -/
theorem number_step (h : StepCase cfg w l w') {job' : Job π n} (hj : job' ∈ w'.jobs) :
    (∃ job ∈ w.jobs, job'.id = job.id) ∨ (job'.id = w.nextJob ∧ w'.nextJob = w.nextJob + 1) := by
  have hset : ∀ (w₁ : World π n) (job : Job π n) (task : Option (Task π)), w₁.jobs = w.jobs →
      job ∈ w.jobs → job' ∈ (w₁.setTask job task).jobs → ∃ job ∈ w.jobs, job'.id = job.id := by
    intro w₁ job task hjobs hjob hj
    rcases mem_setTask hj with ⟨hj, _⟩ | ⟨t, _, rfl⟩
    · exact ⟨job', hjobs ▸ hj, rfl⟩
    · exact ⟨job, hjob, rfl⟩
  cases h with
  | start =>
      rcases Table.mem_insertOrReplace.mp hj with ⟨hj, _⟩ | rfl
      · exact Or.inl ⟨job', hj, rfl⟩
      · exact Or.inr ⟨rfl, rfl⟩
  | outer hjob => exact Or.inl (hset (w.setStore _ _) _ _ rfl hjob hj)
  | run _ hjob => exact Or.inl (hset (w.setStore _ _) _ _ rfl hjob hj)
  | finish hjob => exact Or.inl (hset (w.setStore _ _) _ _ rfl hjob hj)
  | fails hjob => exact Or.inl (hset (w.setStore _ _) _ _ rfl hjob hj)
  | relayMap hjob => exact Or.inl (hset (w.setStore _ _) _ _ rfl hjob hj)
  | relayPull hjob => exact Or.inl (hset (w.setStore _ _) _ _ rfl hjob hj)
  | notified hjob => exact Or.inl (hset w _ _ rfl hjob hj)
  | existing _ hjob => exact Or.inl (hset w _ _ rfl hjob hj)
  | push hjob => exact Or.inl (hset (w.serve _ _).1 _ _ rfl hjob hj)
  | timeout hjob => exact Or.inl (hset (w.delay _ _) _ _ rfl hjob hj)
  | timeoutExisting hjob => exact Or.inl (hset w _ _ rfl hjob hj)
  | kill hjob => exact Or.inl (hset w _ _ rfl hjob hj)
  | arrive | raw | remove => exact Or.inl ⟨job', hj, rfl⟩

/-- The call that a push belongs to is waiting for its answer, or has given the push up. -/
theorem incoming_cases {id : Nat} {req : PushRequest π} (hin : w.incoming l = some (some id, req)) :
    (∃ job ∈ w.jobs, l = .push job.id ∧ job.id = id ∧ Task.request job.task.outer = some req)
      ∨ ∃ i f, l = .arrive i ∧ w.net[i]? = some f ∧ f.job = id ∧ f.req = req := by
  cases l with
  | push id' =>
      obtain ⟨job, hjob, hin⟩ := Option.bind_eq_some_iff.mp hin
      obtain ⟨req', hreq, he⟩ := Option.map_eq_some_iff.mp hin
      obtain ⟨hm, hid⟩ := job_mem hjob
      cases he
      exact Or.inl ⟨job, hm, by rw [hid], hid, hreq⟩
  | arrive i =>
      obtain ⟨f, hf, he⟩ := Option.map_eq_some_iff.mp hin
      cases he
      exact Or.inr ⟨i, f, rfl, hf, rfl, rfl⟩
  | _ => cases hin

theorem incoming_number (hi : Numbered w) {id : Nat} {req : PushRequest π}
    (hin : w.incoming l = some (some id, req)) : id < w.nextJob := by
  rcases incoming_cases hin with ⟨job, hjob, _, rfl, _⟩ | ⟨i, f, _, hf, rfl, _⟩
  · exact hi.jobs job hjob
  · exact hi.net f (List.mem_of_getElem? hf)

omit [Aead κ π] in
theorem numbered_init : Numbered (init cfg : World π n) where
  jobs _ h := absurd h List.not_mem_nil
  net _ h := absurd h List.not_mem_nil
  accepted _ _ h := absurd h List.not_mem_nil
  attempts _ _ := rfl

theorem numbered_step (h : StepCase cfg w l w') (hi : Numbered w) : Numbered w' where
  jobs job' hj := by
    have hle := nextJob_step h
    rcases number_step h hj with ⟨job, hjob, hid⟩ | ⟨hid, hnext⟩
    · have := hi.jobs job hjob
      omega
    · omega
  net f hf := by
    have hle := nextJob_step h
    rcases net_step h hf with hf | ⟨job, hjob, hid, _⟩
    · have := hi.net f hf
      omega
    · have := hi.jobs job hjob
      omega
  accepted id req ha := by
    have hle := nextJob_step h
    rcases accepted_step h ha with ha | ⟨hin, _⟩
    · have := hi.accepted id req ha
      omega
    · have := incoming_number hi hin
      omega
  attempts id hid := by
    have hle := nextJob_step h
    rcases attempts_step h with hsame | ⟨job, _, _, _, hc⟩
    · rw [hsame, hi.attempts id (by omega)]
    · have := hi.jobs job hc.mem
      rw [hc.attempts, hi.attempts id (by omega), if_neg (by omega), List.append_nil]

/-! ## Only the last attempt arrives -/

/-- Where a call of `send` stands, and what was accepted of it. -/
structure Single (w : World π n) : Prop where
  numbered : Numbered w
  send : ∀ job ∈ w.jobs, w.IsSend job.id → job.task.outer.send?.isSome = true
  latest : ∀ id req, (some id, req) ∈ w.accepted → w.IsSend id → w.Latest id req
  sending : ∀ job ∈ w.jobs, ∀ call tries id p, job.task.outer = .sending call tries id p →
    w.IsSend job.id ∧ w.Latest job.id p.req
  idle : ∀ job ∈ w.jobs, job.task.outer.composing = true → ∀ req, (some job.id, req) ∉ w.accepted

omit [Aead κ π] in
theorem single_init : Single (init cfg : World π n) where
  numbered := numbered_init
  send _ h := absurd h List.not_mem_nil
  latest _ _ h := absurd h List.not_mem_nil
  sending _ h := absurd h List.not_mem_nil
  idle _ h := absurd h List.not_mem_nil

/-- A call that composes a packet of an upload sends no message. -/
theorem isSend_step (h : StepCase cfg w l w') {id : Nat} (hs : w'.IsSend id) :
    w.IsSend id ∨ ∃ job ∈ w.jobs, job.id = id ∧ job.task.outer.composing = true := by
  obtain ⟨a, ha, hsendable⟩ := hs
  rcases attempts_step h with hsame | ⟨job, seq, inner, payload, hc⟩
  · exact Or.inl ⟨a, hsame id ▸ ha, hsendable⟩
  · rw [hc.attempts] at ha
    rcases List.mem_append.mp ha with ha | ha
    · exact Or.inl ⟨a, ha, hsendable⟩
    · split at ha
      · rename_i hid
        cases List.mem_singleton.mp ha
        obtain ⟨env, out, _, hstep, _, hone, _⟩ := hc.step
        have hmem : .composed seq inner payload ∈ out.notices := hone ▸ List.mem_singleton_self _
        rcases OuterStep.composing hstep hmem with hcomp | ⟨_, hnot⟩
        · exact Or.inr ⟨job, hc.mem, hid, hcomp⟩
        · rw [hnot] at hsendable
          cases hsendable
      · cases ha

theorem isSend_mono (h : StepCase cfg w l w') {id : Nat} (hs : w.IsSend id) : w'.IsSend id := by
  obtain ⟨a, ha, hsendable⟩ := hs
  refine ⟨a, ?_, hsendable⟩
  rcases attempts_step h with hsame | ⟨job, seq, inner, payload, hc⟩
  · rwa [hsame]
  · rw [hc.attempts]
    exact List.mem_append_left _ ha

/-- What a call of `send` composed last stays the last while it is not composing anew. -/
theorem latest_step (h : StepCase cfg w l w') {id : Nat} {req : PushRequest π}
    (hs : ∀ job ∈ w.jobs, job.id = id →
      job.task.outer.composing = false ∧ job.task.outer.send?.isSome = true)
    (hl : w.Latest id req) : w'.Latest id req := by
  unfold Latest at hl ⊢
  rcases attempts_step h with hsame | ⟨job, seq, inner, payload, hc⟩
  · rwa [hsame]
  · by_cases hid : job.id = id
    · obtain ⟨hno, hsome⟩ := hs job hc.mem hid
      obtain ⟨env, out, _, hstep, _, hone, _⟩ := hc.step
      have hmem : .composed seq inner payload ∈ out.notices := hone ▸ List.mem_singleton_self _
      rcases OuterStep.composing hstep hmem with hcomp | ⟨hnone, _⟩
      · rw [hno] at hcomp
        cases hcomp
      · rw [hnone] at hsome
        cases hsome
    · rwa [hc.attempts, if_neg hid, List.append_nil]

theorem send_step (h : StepCase cfg w l w') (hi : Single w) {job' : Job π n} (hj : job' ∈ w'.jobs)
    (hs : w'.IsSend job'.id) : job'.task.outer.send?.isSome = true := by
  -- a call that sends now did so before, or is about to
  have hold : ∀ job ∈ w.jobs, w'.IsSend job.id → job.task.outer.send?.isSome = true := by
    intro job hjob hs
    rcases isSend_step h hs with hs | ⟨job₁, hjob₁, hid, hcomp⟩
    · exact hi.send job hjob hs
    · obtain rfl := Table.eq_of_key hjob₁ hjob hid
      by_contra hnone
      have := not_composing (Option.not_isSome_iff_eq_none.mp hnone)
      rw [hcomp] at this
      cases this
  rcases job_step h hj with hjob | ⟨call, _, hid, _⟩ | ⟨job, hjob, hid, _, hmove⟩
  · exact hold job' hjob hs
  · -- a call that has just begun has composed nothing
    rw [hid] at hs
    rcases isSend_step h hs with ⟨a, ha, _⟩ | ⟨job₁, hjob₁, hid₁, _⟩
    · rw [hi.numbered.attempts _ (le_refl _)] at ha
      cases ha
    · have := hi.numbered.jobs job₁ hjob₁
      omega
  · rw [hid] at hs
    have hbefore := hold job hjob hs
    generalize job'.task.outer = outer' at hmove
    cases hmove with
    | stay => exact hbefore
    | step hrx label hstep hfresh htask effect => exact OuterStep.send_on hstep htask hbefore
    | notified => rfl
    | pushed _ _ _ htask => exact onPushResult_send_on htask hbefore
    | timeout _ htask => exact (onTimeout_send_on htask).1 hbefore
    | existing answer hp hmap htask =>
        rw [hp] at hbefore
        cases hbefore

/-- A call that waits for an answer sends the packet it composed last. -/
theorem latest_sending_step (h : StepCase cfg w l w') (hcomp : Composing cfg w) (hi : Single w)
    {job' : Job π n} (hj : job' ∈ w'.jobs) {call : SendCall} {tries : Nat} {id : MessageId}
    {p : Pushing π} (hs : job'.task.outer = .sending call tries id p) :
    w'.IsSend job'.id ∧ w'.Latest job'.id p.req := by
  have hold : ∀ job ∈ w.jobs, ∀ p', job.task.outer = .sending call tries id p' → p'.req = p.req →
      w'.IsSend job.id ∧ w'.Latest job.id p.req := by
    intro job hjob p' ho hreq
    obtain ⟨hsend, hlatest⟩ := hi.sending job hjob _ _ _ _ ho
    refine ⟨isSend_mono h hsend, latest_step h (fun job₁ hjob₁ hid => ?_) (hreq ▸ hlatest)⟩
    obtain rfl := Table.eq_of_key hjob₁ hjob hid
    rw [ho]
    exact ⟨rfl, rfl⟩
  rcases job_step h hj with hjob | ⟨call', _, _, htask⟩ | ⟨job, hjob, hid, hdev, hmove⟩
  · exact hold job' hjob p hs rfl
  · rw [htask] at hs
    cases call' <;> cases hs
  · rw [hid]
    generalize job'.task.outer = outer' at hs hmove
    cases hmove with
    | stay => exact hold job hjob p hs rfl
    | @step env out task hrx label hstep hfresh htask effect =>
        obtain ⟨inner, hc, _, hcontent⟩ := OuterStep.sending hstep htask hs
        have hcall : job.task.outer.send? = some call := hstep.send? htask (by rw [hs]; rfl)
        have hsendable : inner.content.isSendable = true := by
          rw [hcontent]
          exact hcomp.sends job hjob call hcall
        have hone : out.notices = [.composed p.req.seq inner p.req.payload] := by
          rcases OuterStep.composed_only hstep with hnone | ⟨_, _, _, hone⟩
          · have := List.filterMap_eq_nil_iff.mp hnone _ hc
            cases this
          · rw [hone] at hc ⊢
            rw [List.mem_singleton.mp hc]
        have hatt : w'.attempts job.id = w.attempts job.id ++ [(p.req.seq, inner, p.req.payload)] := by
          rw [attempts_append (step_log effect), if_pos rfl, hone]
          rfl
        refine ⟨⟨(p.req.seq, inner, p.req.payload), ?_, hsendable⟩, ?_⟩
        · rw [hatt]
          exact List.mem_append_right _ (List.mem_singleton_self _)
        · unfold Latest
          rw [hatt, List.getLast?_append]
          rfl
    | notified => cases hs
    | pushed _ _ _ htask =>
        have hidle := (onPushResult_idle htask).1
        rw [hs] at hidle
        cases hidle
    | timeout _ htask =>
        obtain ⟨p', hp', hreq⟩ := onTimeout_sending htask hs
        exact hold job hjob p' hp' hreq
    | existing answer hp hmap htask =>
        have hidle := (onExisting_idle htask).1
        rw [hs] at hidle
        cases hidle

/-- What is accepted of a call is its last attempt. -/
theorem latest_accepted_step (h : StepCase cfg w l w') (hok : w.UnmistakenStep l) (hi : Single w)
    {id : Nat} {req : PushRequest π} (ha : (some id, req) ∈ w'.accepted) (hs : w'.IsSend id) :
    w'.Latest id req := by
  rcases accepted_step h ha with hold | ⟨hin, hacc, _, _, hfree, _⟩
  · -- nothing was accepted of a call that composes anew
    have hno : ∀ job ∈ w.jobs, job.id = id → job.task.outer.composing = false := by
      intro job hjob hid
      by_contra hcomp
      exact hi.idle job hjob (by simpa using hcomp) req (hid ▸ hold)
    have hsend : w.IsSend id := by
      rcases isSend_step h hs with hsend | ⟨job, hjob, hid, hcomp⟩
      · exact hsend
      · rw [hno job hjob hid] at hcomp
        cases hcomp
    refine latest_step h (fun job hjob hid => ⟨hno job hjob hid, ?_⟩) (hi.latest id req hold hsend)
    exact hi.send job hjob (hid ▸ hsend)
  · have hquiet : ∀ i, w'.attempts i = w.attempts i := by
      rcases attempts_step h with hsame | ⟨_, _, _, _, hc⟩
      · exact hsame
      · obtain ⟨_, _, label, _⟩ := hc.step
        rw [label] at hin
        cases hin
    have hsend : w.IsSend id := by
      obtain ⟨a, ha, hsendable⟩ := hs
      exact ⟨a, hquiet id ▸ ha, hsendable⟩
    have hlatest : w.Latest id req := by
      rcases incoming_cases hin with ⟨job, hjob, _, rfl, hreq⟩ | ⟨i, f, label, hf, rfl, rfl⟩
      · have hsome := hi.send job hjob hsend
        cases ho : job.task.outer with
        | sending call tries id p =>
            rw [ho] at hreq
            cases hreq
            exact (hi.sending job hjob _ _ _ _ ho).2
        | transferring =>
            rw [ho] at hsome
            cases hsome
        | _ =>
            rw [ho] at hreq
            cases hreq
      · subst label
        rcases hok.2.2 f hf with htaken | ⟨hlatest, _⟩
        · unfold Taken at htaken
          rw [hfree] at htaken
          cases htaken
        · exact hlatest hsend
    unfold Latest at hlatest ⊢
    rwa [hquiet]

/-- Nothing is accepted of a call that is about to compose. -/
theorem idle_step (h : StepCase cfg w l w') (hok : w.UnmistakenStep l) (hi : Single w)
    {job' : Job π n} (hj : job' ∈ w'.jobs) (hc : job'.task.outer.composing = true)
    {req : PushRequest π} (ha : (some job'.id, req) ∈ w'.accepted) : False := by
  -- nor is it in this step
  have hold : ∀ job ∈ w.jobs, job.id = job'.id → job.task.outer.composing = true → False := by
    intro job hjob hid hcomp
    rcases accepted_step h ha with hold | ⟨hin, _, _, _, hfree, _⟩
    · exact hi.idle job hjob hcomp req (hid ▸ hold)
    · rcases incoming_cases hin with ⟨job₁, hjob₁, _, hid₁, hreq⟩ | ⟨i, f, label, hf, hid₁, rfl⟩
      · obtain rfl := Table.eq_of_key hjob₁ hjob (hid₁.trans hid.symm)
        rw [request_not_composing hreq] at hcomp
        cases hcomp
      · subst label
        rcases hok.2.2 f hf with htaken | ⟨_, hno⟩
        · unfold Taken at htaken
          rw [hfree] at htaken
          cases htaken
        · rw [hno job hjob (hid.trans hid₁.symm)] at hcomp
          cases hcomp
  rcases job_step h hj with hjob | ⟨_, _, hid, _⟩ | ⟨job, hjob, hid, _, hmove⟩
  · exact hold job' hjob rfl hc
  · have hlt : job'.id < w.nextJob := by
      rcases accepted_step h ha with hold | ⟨hin, _⟩
      · exact hi.numbered.accepted _ _ hold
      · exact incoming_number hi.numbered hin
    omega
  · have hbefore := hold job hjob hid.symm
    generalize job'.task.outer = outer' at hc hmove
    cases hmove with
    | stay => exact hbefore hc
    | step hrx label hstep hfresh htask effect =>
        rw [OuterStep.not_composing hstep htask] at hc
        cases hc
    | notified hp => exact hbefore (by rw [hp]; rfl)
    | @pushed req₁ task hrx label hreq htask effect =>
        obtain ⟨hconflict, call, tries, mid, p, ho⟩ := onPushResult_composing htask hc
        rw [ho] at hreq
        cases hreq
        obtain ⟨htaken, hno⟩ := conflict_taken hconflict
        obtain ⟨hsend, hlatest⟩ := hi.sending job hjob _ _ _ _ ho
        subst label
        have hin : w.incoming (.push job.id) = some (some job.id, p.req) := by
          simp [incoming, job_of_mem hjob, ho, Task.request]
        rw [hid] at ha
        rcases accepted_step h ha with ha | ⟨hin', hacc, _⟩
        · -- the packet in the way is the call's own
          have hown := hi.latest job.id req ha hsend
          unfold Latest at hown hlatest
          rw [hown] at hlatest
          have hseq : req.seq = p.req.seq := congrArg Prod.fst (Option.some.inj hlatest)
          exact hok.2.2 hsend _ hin htaken _ ha rfl hseq
        · rw [hin] at hin'
          cases hin'
          exact hno hacc
    | timeout _ htask =>
        rw [(onTimeout_send_on htask).2] at hc
        cases hc
    | existing answer hp hmap htask =>
        rw [not_composing (onExisting_idle htask).2] at hc
        cases hc

/-- **Only the last attempt of a call arrives**, in every run in which no call takes its own packet
for another's. -/
theorem single_step (h : StepCase cfg w l w') (hok : w.UnmistakenStep l) (hcomp : Composing cfg w)
    (hi : Single w) : Single w' where
  numbered := numbered_step h hi.numbered
  send _ hj hs := send_step h hi hj hs
  latest _ _ ha hs := latest_accepted_step h hok hi ha hs
  sending _ hj _ _ _ _ hs := latest_sending_step h hcomp hi hj hs
  idle _ hj hc _ ha := idle_step h hok hi hj hc ha

/-! ## Ids of attempts -/

theorem mem_attempts_step (h : StepCase cfg w l w') {id : Nat} {a : Nat × PacketInner × π}
    (ha : a ∈ w.attempts id) : a ∈ w'.attempts id := by
  rcases attempts_step h with hsame | ⟨_, _, _, _, hc⟩
  · rwa [hsame]
  · rw [hc.attempts]
    exact List.mem_append_left _ ha

/-- The id of a message that was composed was drawn for it. -/
theorem attempt_issued (hcomp : Composing cfg w) {id : Nat} {a : Nat × PacketInner × π}
    (ha : a ∈ w.attempts id) (hs : a.2.1.content.isSendable = true) :
    ∃ i ∈ w.issued, i.id = a.2.1.id := by
  obtain ⟨seq, inner, payload⟩ := a
  obtain ⟨d, hlog⟩ := mem_attempts.mp ha
  cases (hcomp.made d seq inner payload (mem_notices.mpr ⟨id, hlog⟩)).source with
  | send _ hissued => exact ⟨_, hissued, rfl⟩
  | transfer _ _ hpacket _ =>
      change inner.content.isSendable = true at hs
      rw [(packet_rowId hpacket).1] at hs
      cases hs

theorem Composes.fresh {job : Job π n} {seq : Nat} {inner : PacketInner} {payload : π}
    (h : Composes cfg w l w' job seq inner payload) (hs : inner.content.isSendable = true) :
    w.isFresh inner.id = true := by
  obtain ⟨env, out, _, hstep, hfresh, hone, _⟩ := h.step
  have hmem : .composed seq inner payload ∈ out.notices := hone ▸ List.mem_singleton_self _
  rcases (hstep.composed hmem).2.2 with ⟨_, _, _, hissued⟩ | ⟨t, i, _, _, hpacket, _⟩
  · exact hfresh _ hissued
  · rw [(packet_rowId hpacket).1] at hs
    cases hs

/-- Different calls compose messages under different ids, and none under that of a transfer. -/
structure OwnIds (w : World π n) : Prop where
  calls : ∀ id id', ∀ a ∈ w.attempts id, ∀ a' ∈ w.attempts id', a.2.1.content.isSendable = true →
    a'.2.1.content.isSendable = true → a.2.1.id = a'.2.1.id → id = id'
  transfers : ∀ id, ∀ a ∈ w.attempts id, a.2.1.content.isSendable = true →
    ∀ d t, .reserved t ∈ w.notices d → a.2.1.id ≠ t.transferId

theorem ownIds_step (h : StepCase cfg w l w') (hcomp : Composing cfg w) (hi : OwnIds w) :
    OwnIds w' := by
  have hnew : ∀ {i : String}, w.isFresh i = true → ∀ j ∈ w.issued, j.id ≠ i := fun hf j hj =>
    of_decide_eq_true (List.all_eq_true.mp hf j hj)
  rcases attempts_step h with hsame | ⟨job, seq, inner, payload, hc⟩
  · constructor
    · intro id id' a ha a' ha'
      rw [hsame] at ha ha'
      exact hi.calls id id' a ha a' ha'
    · intro id a ha hs d t ht
      rw [hsame] at ha
      obtain ⟨k, hlog⟩ := mem_notices.mp ht
      rcases notice_step h hlog with hold | horigin
      · exact hi.transfers id a ha hs d t (mem_notices.mpr ⟨k, hold⟩)
      · cases horigin with
        | outer _ _ _ hstep hfresh hw =>
            obtain ⟨i, hissued, hid⟩ := attempt_issued hcomp ha hs
            rw [← hid]
            exact hnew (hfresh _ (hstep.reserved hw).1) i hissued
  · -- the new attempt has an id that nothing had before
    have hsplit : ∀ {id : Nat} {a : Nat × PacketInner × π}, a ∈ w'.attempts id →
        a.2.1.content.isSendable = true → (a ∈ w.attempts id ∧ ∃ i ∈ w.issued, i.id = a.2.1.id)
          ∨ (job.id = id ∧ ∀ i ∈ w.issued, i.id ≠ a.2.1.id) := by
      intro id a ha hs
      rw [hc.attempts] at ha
      rcases List.mem_append.mp ha with ha | ha
      · exact Or.inl ⟨ha, attempt_issued hcomp ha hs⟩
      · split at ha
        · rename_i hid
          cases List.mem_singleton.mp ha
          exact Or.inr ⟨hid, hnew (hc.fresh hs)⟩
        · cases ha
    constructor
    · intro id id' a ha a' ha' hs hs' hid
      rcases hsplit ha hs with ⟨hold, i, hi₁, he⟩ | ⟨hjob, hfree⟩ <;>
        rcases hsplit ha' hs' with ⟨hold', i', hi₁', he'⟩ | ⟨hjob', hfree'⟩
      · exact hi.calls id id' a hold a' hold' hs hs' hid
      · exact absurd (he.trans hid) (hfree' i hi₁)
      · exact absurd (he'.trans hid.symm) (hfree i' hi₁')
      · exact hjob.symm.trans hjob'
    · intro id a ha hs d t ht
      have hold : .reserved t ∈ w.notices d := by
        obtain ⟨k, hlog⟩ := mem_notices.mp ht
        obtain ⟨env, out, _, _, _, hone, effect⟩ := hc.step
        rw [step_log effect, hone] at hlog
        rcases List.mem_append.mp hlog with hlog | hlog
        · exact mem_notices.mpr ⟨k, hlog⟩
        · cases List.mem_singleton.mp hlog
      rcases hsplit ha hs with ⟨ha, _⟩ | ⟨_, hfree⟩
      · exact hi.transfers id a ha hs d t hold
      · exact (hfree _ (hcomp.planned d t hold).issued).symm

/-! ## What is pushed was composed by its call -/

/-- The push is that of a packet the call composed. -/
def Tried (w : World π n) (id : Nat) (req : PushRequest π) : Prop :=
  ∃ inner, (req.seq, inner, req.payload) ∈ w.attempts id

theorem Tried.mono (h : StepCase cfg w l w') {id : Nat} {req : PushRequest π} (ht : w.Tried id req) :
    w'.Tried id req := by
  obtain ⟨inner, ha⟩ := ht
  exact ⟨inner, mem_attempts_step h ha⟩

/-- Every push of a call is that of a packet it composed. -/
structure Attempted (w : World π n) : Prop where
  waiting : ∀ job ∈ w.jobs, ∀ req, Task.request job.task.outer = some req → w.Tried job.id req
  delayed : ∀ f ∈ w.net, w.Tried f.job f.req
  accepted : ∀ id req, (some id, req) ∈ w.accepted → w.Tried id req

theorem attempted_waiting_step (h : StepCase cfg w l w') (hi : Attempted w) {job' : Job π n}
    (hj : job' ∈ w'.jobs) {req : PushRequest π}
    (hreq : Task.request job'.task.outer = some req) : w'.Tried job'.id req := by
  rcases job_step h hj with hjob | ⟨call, _, _, htask⟩ | ⟨job, hjob, hid, _, hmove⟩
  · exact (hi.waiting job' hjob req hreq).mono h
  · rw [htask] at hreq
    cases call <;> cases hreq
  · rw [hid]
    have hold : Task.request job.task.outer = some req → w'.Tried job.id req :=
      fun hr => (hi.waiting job hjob req hr).mono h
    generalize job'.task.outer = outer' at hreq hmove
    cases hmove with
    | stay => exact hold hreq
    | step hrx label hstep hfresh htask effect =>
        obtain ⟨_, _, _, inner, hc⟩ := hstep.request htask hreq
        refine ⟨inner, mem_attempts.mpr ⟨job.dev, ?_⟩⟩
        rw [step_log effect]
        exact List.mem_append_right _ (List.mem_map_of_mem hc)
    | notified => cases hreq
    | pushed _ _ _ htask =>
        rw [(onPushResult_idle htask).1] at hreq
        cases hreq
    | timeout _ htask => exact hold (onTimeout_request htask hreq)
    | existing answer hp hmap htask =>
        rw [(onExisting_idle htask).1] at hreq
        cases hreq

theorem attempted_step (h : StepCase cfg w l w') (hi : Attempted w) : Attempted w' where
  waiting _ hj _ hreq := attempted_waiting_step h hi hj hreq
  delayed f hf := by
    rcases net_step h hf with hf | ⟨job, hjob, hid, hreq⟩
    · exact (hi.delayed f hf).mono h
    · exact hid ▸ (hi.waiting job hjob _ hreq).mono h
  accepted id req ha := by
    rcases accepted_step h ha with hold | ⟨hin, _⟩
    · exact (hi.accepted id req hold).mono h
    · rcases incoming_cases hin with ⟨job, hjob, _, rfl, hreq⟩ | ⟨i, f, _, hf, rfl, rfl⟩
      · exact (hi.waiting job hjob req hreq).mono h
      · exact (hi.delayed f (List.mem_of_getElem? hf)).mono h

/-! ## The rows of a message -/

/-- Whose id a row may have: that of a transfer, or of a message a call composed and pushed. -/
inductive RowOf (w : World π n) (i : MessageId) : Prop where
  | transfer {d : Fin n} {t : OutboundTransfer} (hreserved : .reserved t ∈ w.notices d)
      (hid : t.transferId = i)
  | sent {id : Nat} {req : PushRequest π} {inner : PacketInner}
      (haccepted : (some id, req) ∈ w.accepted)
      (hattempt : (req.seq, inner, req.payload) ∈ w.attempts id)
      (hsendable : inner.content.isSendable = true) (hid : inner.id = i)

theorem RowOf.mono (h : StepCase cfg w l w') {i : MessageId} (hr : w.RowOf i) : w'.RowOf i := by
  have hcont := continues_step h
  cases hr with
  | transfer hreserved hid => exact .transfer (hcont.notices hreserved) hid
  | sent haccepted hattempt hsendable hid =>
      exact .sent (hcont.accepted haccepted) (mem_attempts_step h hattempt) hsendable hid

/-- What a call composed and pushed has the id of a transfer, or its own. -/
theorem rowOf_accepted (hcomp : Composing cfg w) (hi : Attempted w) {id : Nat} {req : PushRequest π}
    (ha : (some id, req) ∈ w.accepted) {d : Fin n} {inner : PacketInner}
    (hc : .composed req.seq inner req.payload ∈ w.notices d) : w.RowOf inner.rowId := by
  obtain ⟨inner', hattempt⟩ := hi.accepted id req ha
  obtain ⟨d', hlog⟩ := mem_attempts.mp hattempt
  obtain rfl : inner = inner' := opens hcomp (mem_notices.mpr ⟨id, hlog⟩) (opens_own hcomp hc)
  cases (hcomp.made d _ inner _ hc).source with
  | send hsendable _ => exact .sent ha hattempt hsendable (rowId_of_sendable hsendable).symm
  | transfer hreserved _ hpacket _ => exact .transfer hreserved (packet_rowId hpacket).2.symm

theorem rowOf_saves (hcomp : Composing cfg w) (hi : Attempted w) {d : Fin n} {m : Message}
    (hs : w.Saves cfg d m) : w.RowOf m.id := by
  obtain ⟨job, hjob, rfl, _, env, hsaves⟩ := hs
  cases ho : job.task.outer with
  | save call id seq =>
      rw [ho] at hsaves
      cases hsaves
      obtain ⟨req, ha, rfl, _, inner, hc, rfl, hcontent⟩ := hcomp.saved job hjob _ _ _ ho
      have hsendable : inner.content.isSendable = true := by
        rw [hcontent]
        exact hcomp.sends job hjob call (by rw [ho]; rfl)
      have hrow := rowOf_accepted hcomp hi ha hc
      rwa [rowId_of_sendable hsendable] at hrow
  | saveSending t =>
      rw [ho] at hsaves
      cases hsaves
      have hwork : t ∈ w.working job.dev :=
        mem_working_of_job hjob (by rw [ho]; exact List.mem_singleton_self _)
      exact .transfer (hcomp.working _ t hwork) rfl
  | _ =>
      rw [ho] at hsaves
      cases hsaves

/-- The row a packet brings has the packet's id. -/
theorem newRow_id {c : Client κ} {now : Int} {st : LocalStore} {inner : PacketInner} {seq : Nat}
    {m : Message} (h : NewRow c now st inner seq m) : m.id = inner.rowId := by
  rcases h.2 with hin | hasm
  · exact (incomingMessage_shows hin).1
  · obtain ⟨_, _, _, _, _, _, _, hcontent, _⟩ := hasm.chunk
    unfold PacketInner.rowId
    rw [hcontent]

/-- Whatever a device holds, buffers or stores has such an id. -/
def Rowed (cfg : Setup κ n) (w : World π n) : Prop :=
  Provenance (fun d pkt => ∀ inner, (cfg.device d).decryptPacket pkt.seq pkt.payload = some inner →
      w.RowOf inner.rowId) (fun _ _ => True) (fun _ m => w.RowOf m.id) w

theorem rowed_step (h : StepCase cfg w l w') (hok : w.UnmistakenStep l) (hcomp : Composing cfg w)
    (hatt : Attempted w) (hstored : Stored cfg w)
    (hmade : ∀ a ∈ w.accepted, ∃ id, a.1 = some id) (hi : Rowed cfg w) : Rowed cfg w' := by
  refine provenance_step h hi ?_ (fun _ _ _ => trivial) ?_ ?_ (fun _ _ _ _ _ _ _ _ _ _ _ _ _ _ => trivial)
    ?_ ?_
  · intro d pkt hp inner hdec
    exact (hp inner hdec).mono h
  · intro d m _ m' hrow hre
    have hid : m'.id = m.id := by rw [hre.sameRow]
    rw [hid]
    exact hrow.mono h
  · intro d pkt hp inner hdec
    rcases hp with ⟨_, hget⟩ | ⟨job, _, _, packets, label, _⟩
    · obtain ⟨⟨id, req⟩, ha, _, rfl⟩ := hstored pkt (PacketStore.mem_packets.mpr hget)
      obtain ⟨id', hid⟩ := hmade _ ha
      cases hid
      obtain ⟨d', hw⟩ := hcomp.accepted id' req ha
      obtain ⟨inner', hc⟩ := hw.composed
      obtain rfl := opens hcomp hc hdec
      exact (rowOf_accepted hcomp hatt ha hc).mono h
    · have hrelay := hok.1
      rw [label] at hrelay
      cases hrelay
  · intro d m hs
    exact (rowOf_saves hcomp hatt hs).mono h
  · intro d pkt inner now m hp hdec hnew
    rw [newRow_id hnew]
    exact (hp inner hdec).mono h

/-! ## The runs -/

/-- Everything known of the calls and of what they composed. -/
structure Telling (cfg : Setup κ n) (w : World π n) : Prop where
  single : Single w
  own : OwnIds w
  attempted : Attempted w
  rowed : Rowed cfg w

theorem telling_init : Telling cfg (init cfg : World π n) where
  single := single_init
  own := ⟨fun _ _ _ h => absurd h List.not_mem_nil, fun _ _ h => absurd h List.not_mem_nil⟩
  attempted :=
    { waiting := fun _ h => absurd h List.not_mem_nil
      delayed := fun _ h => absurd h List.not_mem_nil
      accepted := fun _ _ h => absurd h List.not_mem_nil }
  rowed := provenance_init

theorem telling_reachable
    (hr : Lts.Reach (step cfg) (fun w l => w.UnmistakenStep l) (init cfg) w) : Telling cfg w := by
  refine hr.invariant telling_init (fun w l w' hr hi hok hs => ?_)
  have h := step_inv hs
  have hcomp := composing_reachable hr
  exact
    { single := single_step h hok hcomp hi.single
      own := ownIds_step h hcomp hi.own
      attempted := attempted_step h hi.attempted
      rowed := rowed_step h hok hcomp hi.attempted (stored_reachable hr)
        (made_reachable (fun _ _ hok => hok.2.1) hr) hi.rowed }

theorem pushedOnce_of_single (hi : Single w) : w.PushedOnce := by
  intro id hs req req' ha ha'
  have h := hi.latest id req ha hs
  have h' := hi.latest id req' ha' hs
  unfold Latest at h h'
  rw [h] at h'
  have heq := Option.some.inj h'
  exact ⟨congrArg Prod.fst heq, congrArg Prod.snd heq⟩

/-- The row of a message has the id of the packet that was pushed. -/
theorem row_attempt (hi : Telling cfg w) {d : Fin n} {m : Message} (hm : m ∈ (w.store d).messages)
    {id : Nat} {a : Nat × PacketInner × π} (ha : a ∈ w.attempts id)
    (hs : a.2.1.content.isSendable = true) (hshows : m.Shows a.2.1) :
    ∃ req inner, (some id, req) ∈ w.accepted ∧ (req.seq, inner, req.payload) ∈ w.attempts id
      ∧ inner.id = m.id := by
  have hid : m.id = a.2.1.id := hshows.1.trans (rowId_of_sendable hs)
  cases hi.rowed.rows d m hm with
  | transfer hreserved htransfer =>
      exact absurd (hid.symm.trans htransfer.symm) (hi.own.transfers id a ha hs _ _ hreserved)
  | @sent id' req inner haccepted hattempt hsendable hinner =>
      obtain rfl := hi.own.calls id id' a ha _ hattempt hs hsendable (hid.symm.trans hinner.symm)
      exact ⟨req, inner, haccepted, hattempt, hinner⟩

/-- **A call of `send` pushes one packet, and its message is stored once**, in every run in which no
call takes its own packet for another's. -/
theorem sentOnce_reachable
    (hr : Lts.Reach (step cfg) (fun w l => w.UnmistakenStep l) (init cfg) w) :
    w.PushedOnce ∧ w.StoredOnce := by
  have hi := telling_reachable hr
  have hcomp := composing_reachable hr
  have hpushed := pushedOnce_of_single hi.single
  refine ⟨hpushed, ?_⟩
  intro d m hm m' hm' id a ha a' ha' hs hs' hshows hshows'
  obtain ⟨req, inner, hacc, hatt, hid⟩ := row_attempt hi hm ha hs hshows
  obtain ⟨req', inner', hacc', hatt', hid'⟩ := row_attempt hi hm' ha' hs' hshows'
  obtain ⟨_, hpayload⟩ := hpushed id ⟨a, ha, hs⟩ req req' hacc hacc'
  -- one payload opens to one packet
  have hinner : inner = inner' := by
    obtain ⟨_, hlog⟩ := mem_attempts.mp hatt
    obtain ⟨_, hlog'⟩ := mem_attempts.mp hatt'
    rw [← hpayload] at hlog'
    exact opens hcomp (mem_notices.mpr ⟨id, hlog'⟩) (opens_own hcomp (mem_notices.mpr ⟨id, hlog⟩))
  exact Table.eq_of_key hm hm' (hid.symm.trans ((congrArg PacketInner.id hinner).trans hid'))

end Step

/-! ## A message sent twice -/

/-- Alice's first push brings no answer, and she tries the other address. -/
def retried : List (Label Sealed 3) :=
  [.start 0 (Sample.text "hi"), .notified 0 false, .localStep 0 (Sample.env "m1"), .timeout 0 true]

/-- Bob receives, in a call of the number `1`. -/
def bobReceives (count : Nat) : List (Label Sealed 3) :=
  [.start 1 .receive, .scan 1, .lastSeq 1] ++ Sample.steps 1 1 ++ [.pull 1] ++ Sample.steps 1 count

/-- The second push is accepted, and the first one arrives too late. -/
def arrivesLate : List (Label Sealed 3) :=
  retried ++ [.push 0, .arrive 0] ++ Sample.steps 0 1 ++ bobReceives 4

/-- The first push is accepted, and the second one finds its packet in the way: Alice receives it,
and sends her message again. -/
def arrivesFirst : List (Label Sealed 3) :=
  retried ++ [.arrive 0, .push 0, .scan 0, .lastSeq 0] ++ Sample.steps 0 1 ++ [.pull 0] ++
    Sample.steps 0 5 ++ [.localStep 0 (Sample.env "m2"), .push 0] ++ bobReceives 3

/-- A push that is repeated leaves one packet when the first one never got through in time. -/
theorem sentOnce_retried :
    (Lts.execWhile (step Sample.setup) (fun w l => w.UnmistakenStep l) (init Sample.setup)
      arrivesLate).isSome = true
    ∧ ((Lts.execWhile (step Sample.setup) (fun w l => w.UnmistakenStep l) (init Sample.setup)
        arrivesLate).getD (init Sample.setup)).PushedOnce
    ∧ ((Lts.execWhile (step Sample.setup) (fun w l => w.UnmistakenStep l) (init Sample.setup)
        arrivesLate).getD (init Sample.setup)).StoredOnce :=
  ⟨by decide, sentOnce_reachable (Lts.reach_getD (by decide))⟩

/-- The packet of Alice's message under this id. -/
def hello (id : String) : PacketInner := ⟨id, 0, "alice", .text "hi", none⟩

/-- The row of the packet at this number. -/
def helloRow (seq : Nat) (id : String) : Message :=
  ⟨id, ⟨"alice", "bob"⟩, "alice", .text "hi", 0, .delivered, some seq, none, none⟩

/-- When it did, one call leaves two packets on the server, and its message is stored twice. -/
theorem sent_twice :
    (¬ ∀ w : World Sealed 3, Lts.Reach (step Sample.setup)
      (fun _ l => l.isRelay = false ∧ l.isRaw = false ∧ l.isRemoval = false) (init Sample.setup) w →
      w.PushedOnce)
    ∧ ¬ ∀ w : World Sealed 3, Lts.Reach (step Sample.setup)
      (fun _ l => l.isRelay = false ∧ l.isRaw = false ∧ l.isRemoval = false) (init Sample.setup) w →
      w.StoredOnce := by
  have hrun : (Lts.execWhile (step Sample.setup)
      (fun _ l => l.isRelay = false ∧ l.isRaw = false ∧ l.isRemoval = false) (init Sample.setup)
      arrivesFirst).isSome = true := by decide
  have hr := Lts.reach_getD hrun
  constructor
  · intro h
    have honce := h _ hr 0 (by decide) ⟨"alice", "bob", 1, ⟨7, 0, hello "m1"⟩, "alice"⟩
      ⟨"alice", "bob", 2, ⟨7, 0, hello "m2"⟩, "alice"⟩ (by decide) (by decide)
    cases honce.1
  · intro h
    have honce := h _ hr 1 (helloRow 1 "m1") (by decide) (helloRow 2 "m2") (by decide) 0
      (1, hello "m1", ⟨7, 0, hello "m1"⟩) (by decide) (2, hello "m2", ⟨7, 0, hello "m2"⟩) (by decide)
      rfl rfl ⟨rfl, rfl, Or.inl rfl⟩ ⟨rfl, rfl, Or.inl rfl⟩
    cases congrArg Message.serverSeq honce

end World

end Paranoia
