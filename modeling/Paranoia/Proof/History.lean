import Paranoia.Proof.Running

/-!
# The server and the history

What one step does to the packets of the server and to the log: `server_step` has
three cases, and whatever a run has once accepted or pulled stays in its log.
From this come the two facts about a run on an honest server that later proofs
start from: what a `receive` holds was pulled, and without deletions what was
accepted is live.
-/

namespace Paranoia

variable {κ π : Type} {n : Nat}

/-- A step outside of `receive` pulls nothing. -/
theorem OuterStep.not_pulled [Aead κ π] {c : Client κ} {env : Env} {st : LocalStore}
    {outer : Outer π} {out : Local π} (h : OuterStep c env st outer out)
    (packets : List (RawPacket π)) : .pulled packets ∉ out.notices := by
  cases h <;> simp

namespace World

variable {w w' : World π n} {d : Fin n}

theorem job_of_mem {job : Job π n} (h : job ∈ w.jobs) : w.job job.id = some job := by
  obtain ⟨job', hj⟩ := Table.find?_isSome_of_mem h (p := fun j => j.id = job.id) (by simp)
  obtain ⟨hm, hid⟩ := Table.find?_some hj
  rw [World.job, hj, Table.eq_of_key hm h (by simpa using hid)]

/-! ## Reading the log -/

theorem mem_accepted {job : Option Nat} {req : PushRequest π} :
    (job, req) ∈ w.accepted ↔ .accepted job req ∈ w.log := by
  simp only [accepted, List.mem_filterMap]
  constructor
  · rintro ⟨e, he, h⟩
    cases e with
    | accepted job' req' =>
        cases h
        exact he
    | notice => cases h
  · exact fun h => ⟨_, h, rfl⟩

theorem mem_notices {what : Notice π} :
    what ∈ w.notices d ↔ ∃ job, .notice d job what ∈ w.log := by
  simp only [notices, List.mem_filterMap]
  constructor
  · rintro ⟨e, he, h⟩
    cases e with
    | accepted => cases h
    | notice dev job what' =>
        dsimp only at h
        split at h
        · rename_i hd
          cases h
          exact ⟨job, hd ▸ he⟩
        · cases h
  · rintro ⟨job, h⟩
    exact ⟨_, h, by simp⟩

theorem mem_pulled {pkt : RawPacket π} :
    pkt ∈ w.pulled d ↔ ∃ packets, .pulled packets ∈ w.notices d ∧ pkt ∈ packets := by
  simp only [pulled, List.mem_flatMap]
  constructor
  · rintro ⟨what, hw, h⟩
    cases what with
    | pulled packets => exact ⟨packets, hw, h⟩
    | _ => cases h
  · rintro ⟨packets, hw, h⟩
    exact ⟨_, hw, h⟩

/-- One world's log continues another's. -/
def Continues (w w' : World π n) : Prop := ∃ events, w'.log = w.log ++ events

theorem Continues.mem (h : Continues w w') {e : Event π n} (he : e ∈ w.log) : e ∈ w'.log := by
  obtain ⟨events, h⟩ := h
  rw [h]
  exact List.mem_append_left _ he

theorem Continues.accepted (h : Continues w w') {a : Option Nat × PushRequest π}
    (ha : a ∈ w.accepted) : a ∈ w'.accepted :=
  mem_accepted.mpr (h.mem (mem_accepted.mp ha))

theorem Continues.notices (h : Continues w w') {what : Notice π} (ha : what ∈ w.notices d) :
    what ∈ w'.notices d := by
  obtain ⟨job, ha⟩ := mem_notices.mp ha
  exact mem_notices.mpr ⟨job, h.mem ha⟩

theorem Continues.pulled (h : Continues w w') {pkt : RawPacket π} (ha : pkt ∈ w.pulled d) :
    pkt ∈ w'.pulled d := by
  obtain ⟨packets, ha, hp⟩ := mem_pulled.mp ha
  exact mem_pulled.mpr ⟨packets, h.notices ha, hp⟩

/-! ## What a step does to the server -/

/-- The ways a step can change the server, with what it adds to the log. -/
inductive ServerCase (cfg : Setup κ n) (w : World π n) (l : Label π n) (w' : World π n) : Prop where
  | quiet {dev : Fin n} {job : Nat} {notices : List (Notice π)} (server : w'.server = w.server)
      (log : w'.log = w.log ++ notices.map (.notice dev job))
  | same (server : w'.server = w.server) (log : w'.log = w.log)
  | stored {job : Option Nat} {req : PushRequest π} (incoming : w.incoming l = some (job, req))
      (accepts : w.Accepts req) (bound : req.seq < u64Size) (signed : req.sig = req.sender)
      (free : w.server.store.get req.dialogue req.seq = none)
      (server : w'.server.store = w.server.store.put req.dialogue req.seq req.payload)
      (log : w'.log = w.log ++ [.accepted job req]) (store : w'.store = w.store)
  | removed {fromSeq toSeq : Nat} (label : l = .remove fromSeq toSeq)
      (removal : w.server.store.removeRange cfg.key fromSeq toSeq = .ok w'.server.store)
      (log : w'.log = w.log)

variable {cfg : Setup κ n} {l : Label π n}

theorem serve_server {w₁ : World π n} {id : Option Nat} {req : PushRequest π}
    (hserver : w₁.server = w.server) (hlog : w₁.log = w.log) (hstore : w₁.store = w.store)
    (hin : w.incoming l = some (id, req)) (hw : w'.server = (w₁.serve id req).1.server)
    (hl : w'.log = (w₁.serve id req).1.log) (hs : w'.store = (w₁.serve id req).1.store) :
    ServerCase cfg w l w' := by
  rcases serve_cases w₁ id req with ⟨hacc, hlt, hsig, hfree, hserve, _⟩ | ⟨_, hserve⟩
  · rw [hserve] at hw hl hs
    refine .stored hin ?_ hlt hsig (hserver ▸ hfree) ?_ ?_ (hs.trans hstore)
    · unfold Accepts at hacc ⊢
      rwa [← hserver]
    · rw [hw, ← hserver]
      rfl
    · rw [hl, ← hlog]
      rfl
  · rw [hserve] at hw hl
    exact .same (hw.trans hserver) (hl.trans hlog)

variable [Aead κ π]

/-- **What one step does to the server.** -/
theorem server_step (h : StepCase cfg w l w') : ServerCase cfg w l w' := by
  cases h with
  | start => exact .same rfl rfl
  | @outer job _ out =>
      have hserver : (w.moved job out.store out.task out.notices).server = w.server := moved_server
      have hlog : (w.moved job out.store out.task out.notices).log
          = w.log ++ out.notices.map (.notice job.dev job.id) := moved_log
      exact .quiet hserver hlog
  | run => exact .quiet moved_server moved_log
  | finish => exact .quiet moved_server moved_log
  | fails => exact .quiet moved_server moved_log
  | relayMap => exact .quiet moved_server moved_log
  | relayPull => exact .quiet moved_server moved_log
  | notified => exact .same (setTask_server ..) (setTask_log ..)
  | existing => exact .same (setTask_server ..) (setTask_log ..)
  | @push job req task hjob hrx hreq htask =>
      have hin : w.incoming (.push job.id) = some (some job.id, req) := by
        simp [incoming, job_of_mem hjob, hreq]
      exact serve_server rfl rfl rfl hin (setTask_server ..) (setTask_log ..) (setTask_store ..)
  | timeout => exact .same (setTask_server ..) (setTask_log ..)
  | timeoutExisting => exact .same (setTask_server ..) (setTask_log ..)
  | @arrive i flight hnet =>
      have hin : w.incoming (.arrive i) = some (some flight.job, flight.req) := by
        simp [incoming, hnet]
      exact serve_server rfl rfl rfl hin rfl rfl rfl
  | raw => exact serve_server rfl rfl rfl rfl rfl rfl rfl
  | kill => exact .same (setTask_server ..) (setTask_log ..)
  | remove hr => exact .removed rfl hr rfl

theorem continues_step (h : StepCase cfg w l w') : Continues w w' := by
  cases server_step h with
  | quiet _ hlog => exact ⟨_, hlog⟩
  | same _ hlog => exact ⟨[], by simp [hlog]⟩
  | stored _ _ _ _ _ _ hlog => exact ⟨_, hlog⟩
  | removed _ _ hlog => exact ⟨[], by simp [hlog]⟩

/-- A push is accepted in the step that stores it. -/
theorem accepted_step (h : StepCase cfg w l w') {a : Option Nat × PushRequest π}
    (ha : a ∈ w'.accepted) :
    a ∈ w.accepted ∨ (w.incoming l = some a ∧ w.Accepts a.2 ∧ a.2.seq < u64Size
      ∧ a.2.sig = a.2.sender ∧ w.server.store.get a.2.dialogue a.2.seq = none
      ∧ w'.server.store = w.server.store.put a.2.dialogue a.2.seq a.2.payload
      ∧ w'.store = w.store) := by
  obtain ⟨job, req⟩ := a
  have ha := mem_accepted.mp ha
  cases server_step h with
  | quiet _ hlog =>
      rw [hlog] at ha
      rcases List.mem_append.mp ha with ha | ha
      · exact Or.inl (mem_accepted.mpr ha)
      · obtain ⟨_, _, h⟩ := List.mem_map.mp ha
        cases h
  | same _ hlog => exact Or.inl (mem_accepted.mpr (hlog ▸ ha))
  | stored hin hacc hlt hsig hfree hserver hlog hstore =>
      rw [hlog] at ha
      rcases List.mem_append.mp ha with ha | ha
      · exact Or.inl (mem_accepted.mpr ha)
      · cases List.mem_singleton.mp ha
        exact Or.inr ⟨hin, hacc, hlt, hsig, hfree, hserver, hstore⟩
  | removed _ _ hlog => exact Or.inl (mem_accepted.mpr (hlog ▸ ha))

/-- A live packet was live before, or its push has just been accepted. -/
theorem get_step (h : StepCase cfg w l w') {key : DialogueKey} {s : Nat} {data : π}
    (hget : w'.server.store.get key s = some data) :
    w.server.store.get key s = some data ∨ ∃ job req, w.incoming l = some (job, req)
      ∧ w.Accepts req ∧ req.dialogue = key ∧ req.seq = s ∧ req.payload = data
      ∧ (job, req) ∈ w'.accepted := by
  cases server_step h with
  | quiet hserver => exact Or.inl (hserver ▸ hget)
  | same hserver => exact Or.inl (hserver ▸ hget)
  | @stored job req hin hacc _ _ _ hserver hlog =>
      rw [hserver] at hget
      rcases PacketStore.get_put_eq_some hget with ⟨rfl, rfl, rfl⟩ | hget
      · refine Or.inr ⟨job, req, hin, hacc, rfl, rfl, rfl, mem_accepted.mpr ?_⟩
        rw [hlog]
        exact List.mem_append_right _ (List.mem_singleton_self _)
      · exact Or.inl hget
  | removed _ hr => exact Or.inl (PacketStore.get_of_removeRange hr hget)

/-- Every live packet of the dialogue is one whose push was accepted. -/
def Stored (cfg : Setup κ n) (w : World π n) : Prop :=
  ∀ pkt ∈ w.server.store.packets cfg.key, ∃ a ∈ w.accepted,
    a.2.dialogue = cfg.key ∧ ⟨a.2.seq, a.2.payload⟩ = pkt

theorem stored_step (h : StepCase cfg w l w') (hi : Stored cfg w) : Stored cfg w' := by
  intro pkt hp
  have hget := PacketStore.mem_packets.mp hp
  rcases get_step h hget with hold | ⟨job, req, _, _, hd, hs, hpay, ha⟩
  · obtain ⟨a, ha, hd, he⟩ := hi pkt (PacketStore.mem_packets.mpr hold)
    exact ⟨a, (continues_step h).accepted ha, hd, he⟩
  · exact ⟨_, ha, hd, by rw [hs, hpay]⟩

theorem stored_reachable {ok : World π n → Label π n → Prop}
    (hr : Lts.Reach (step cfg) ok (init cfg) w) : Stored cfg w :=
  hr.invariant (fun _ hp => absurd hp List.not_mem_nil)
    (fun _ _ _ _ hi _ hs => stored_step (step_inv hs) hi)

/-- Without deletions what was accepted is live. -/
theorem live_step (h : StepCase cfg w l w') (hremoval : l.isRemoval = false)
    (hi : ∀ a ∈ w.accepted, w.server.store.get a.2.dialogue a.2.seq = some a.2.payload) :
    ∀ a ∈ w'.accepted, w'.server.store.get a.2.dialogue a.2.seq = some a.2.payload := by
  intro a ha
  rcases accepted_step h ha with hold | ⟨_, _, _, _, _, hserver, _⟩
  · have hget := hi a hold
    cases server_step h with
    | quiet hserver => rw [hserver]; exact hget
    | same hserver => rw [hserver]; exact hget
    | @stored job req _ _ _ _ hfree hserver =>
        rw [hserver]
        by_cases hk : a.2.dialogue = req.dialogue ∧ a.2.seq = req.seq
        · -- the number is free, so nothing was accepted there
          rw [hk.1, hk.2, hfree] at hget
          cases hget
        · rw [PacketStore.get_put_of_ne _ _ (not_and_or.mp hk)]
          exact hget
    | removed label => rw [label] at hremoval; cases hremoval
  · rw [hserver]
    exact PacketStore.get_put_self _ _ _ _

theorem live_reachable {ok : World π n → Label π n → Prop}
    (hok : ∀ w l, ok w l → l.isRemoval = false) (hr : Lts.Reach (step cfg) ok (init cfg) w) :
    ∀ a ∈ w.accepted, w.server.store.get a.2.dialogue a.2.seq = some a.2.payload :=
  hr.invariant (P := fun w => ∀ a ∈ w.accepted,
      w.server.store.get a.2.dialogue a.2.seq = some a.2.payload)
    (fun _ ha => absurd ha List.not_mem_nil)
    (fun w l _ _ hi h hs => live_step (step_inv hs) (hok w l h) hi)

/-- A push that is not made by hand is made by a call. -/
theorem incoming_isSome (hraw : l.isRaw = false) {a : Option Nat × PushRequest π}
    (hin : w.incoming l = some a) : ∃ id, a.1 = some id := by
  cases l with
  | push id =>
      obtain ⟨job, _, h⟩ := Option.bind_eq_some_iff.mp hin
      obtain ⟨req, _, he⟩ := Option.map_eq_some_iff.mp h
      exact ⟨id, he ▸ rfl⟩
  | arrive i =>
      obtain ⟨flight, _, he⟩ := Option.map_eq_some_iff.mp hin
      exact ⟨flight.job, he ▸ rfl⟩
  | raw => cases hraw
  | _ => cases hin

/-- Where no push is made by hand, every accepted one is that of a call. -/
theorem made_reachable {ok : World π n → Label π n → Prop} (hok : ∀ w l, ok w l → l.isRaw = false)
    (hr : Lts.Reach (step cfg) ok (init cfg) w) :
    ∀ a ∈ w.accepted, ∃ id, a.1 = some id := by
  refine hr.invariant (P := fun w => ∀ a ∈ w.accepted, ∃ id, a.1 = some id)
    (fun _ ha => absurd ha List.not_mem_nil) (fun w l w' _ hi h hs a ha => ?_)
  rcases accepted_step (step_inv hs) ha with hold | ⟨hin, _⟩
  · exact hi a hold
  · exact incoming_isSome (hok w l h) hin

/-! ## What is pulled on an honest server -/

/-- The answer to a pull holds live packets of the batch. -/
theorem mem_batch {ps : PacketStore π} {key : DialogueKey} {seq stop : Nat}
    {packets : List (RawPacket π)}
    (h : ps.pull key (seq - 1) (Receive.batchEnd seq stop) = .ok packets) {pkt : RawPacket π} :
    pkt ∈ packets ↔ seq - 1 < pkt.seq ∧ pkt.seq ≤ Receive.batchEnd seq stop
      ∧ ps.get key pkt.seq = some pkt.payload := by
  refine PacketStore.mem_pull h ?_
  unfold Receive.batchEnd saturatingAdd
  have : 0 < u64Size := by decide
  omega

/-- Where a notice comes from. -/
inductive Origin (cfg : Setup κ n) (w : World π n) (l : Label π n) (w' : World π n) :
    Fin n → Nat → Notice π → Prop where
  | outer {job : Job π n} {env : Env} {out : Local π} {what : Notice π} (hjob : job ∈ w.jobs)
      (hrx : job.task.rx = none) (label : l = .localStep job.id env)
      (hstep : OuterStep (cfg.device job.dev) env (w.store job.dev) job.task.outer out)
      (hfresh : ∀ i ∈ out.issued, w.isFresh i.1 = true) (hwhat : what ∈ out.notices)
      (effect : w' = (w.moved job out.store out.task out.notices).issue job.dev out.issued) :
      Origin cfg w l w' job.dev job.id what
  | pull {job : Job π n} {rx : Rx π} {seq stop : Nat} {todo : List (Nat × Nat)}
      {packets : List (RawPacket π)} (hjob : job ∈ w.jobs) (hrx : job.task.rx = some rx)
      (hp : rx.run.point = .pull seq stop todo)
      (hpull : w.server.store.pull cfg.key (seq - 1) (Receive.batchEnd seq stop) = .ok packets) :
      Origin cfg w l w' job.dev job.id (.pulled packets)
  | relayPull {job : Job π n} {packets : List (RawPacket π)} (hjob : job ∈ w.jobs)
      (label : l = .relayPull job.id packets) : Origin cfg w l w' job.dev job.id (.pulled packets)
  | received {job : Job π n} {rx : Rx π} (hjob : job ∈ w.jobs) (hrx : job.task.rx = some rx)
      (hdone : rx.run.point = .done) :
      Origin cfg w l w' job.dev job.id (.received rx.since rx.run.decryptErrors)

theorem mem_serve_log {id : Option Nat} {req : PushRequest π} {e : Event π n}
    (h : e ∈ (w.serve id req).1.log) : e ∈ w.log ∨ e = .accepted id req := by
  rcases serve_cases w id req with ⟨_, _, _, _, hs, _⟩ | ⟨_, hs⟩
  · rw [hs] at h
    exact (List.mem_append.mp h).imp_right List.mem_singleton.mp
  · exact Or.inl (hs ▸ h)

/-- **A notice is old, or the step that writes it says where it comes from.** -/
theorem notice_step (h : StepCase cfg w l w') {id : Nat} {what : Notice π}
    (hn : .notice d id what ∈ w'.log) : .notice d id what ∈ w.log ∨ Origin cfg w l w' d id what := by
  -- what a move of the call `job` adds is its own notices
  have hmoved : ∀ (job : Job π n) (st : LocalStore) (task : Option (Task π))
      (notices : List (Notice π)), .notice d id what ∈ (w.moved job st task notices).log →
      (what ∈ notices → d = job.dev → id = job.id → Origin cfg w l w' d id what) →
      .notice d id what ∈ w.log ∨ Origin cfg w l w' d id what := by
    intro job st task notices hmem hnew
    rw [moved_log] at hmem
    refine (List.mem_append.mp hmem).imp_right (fun hmem => ?_)
    obtain ⟨_, hw, he⟩ := List.mem_map.mp hmem
    cases he
    exact hnew hw rfl rfl
  have hserve : ∀ (w₁ : World π n) (job : Option Nat) (req : PushRequest π), w₁.log = w.log →
      .notice d id what ∈ (w₁.serve job req).1.log →
      .notice d id what ∈ w.log ∨ Origin cfg w l w' d id what := by
    intro w₁ job req hlog hmem
    rcases mem_serve_log hmem with hmem | he
    · exact Or.inl (hlog ▸ hmem)
    · cases he
  cases h with
  | @outer job _ out hjob hrx hstep hfresh =>
      refine hmoved job out.store out.task out.notices hn (fun hw hd hid => ?_)
      subst hd hid
      exact .outer hjob hrx rfl hstep hfresh hw rfl
  | run _ hjob hrx hmove =>
      refine hmoved _ _ _ _ hn (fun hw hd hid => ?_)
      subst hd hid
      cases hmove with
      | pull hp hpull =>
          cases List.mem_singleton.mp hw
          rw [cfg.shared] at hpull
          exact .pull hjob hrx hp hpull
      | _ => cases hw
  | finish hjob hrx hdone _ =>
      refine hmoved _ _ _ _ hn (fun hw hd hid => ?_)
      cases List.mem_singleton.mp hw
      subst hd hid
      exact .received hjob hrx hdone
  | fails => exact hmoved _ _ _ _ hn (fun hw => by cases hw)
  | relayMap => exact hmoved _ _ _ _ hn (fun hw => by cases hw)
  | relayPull hjob =>
      refine hmoved _ _ _ _ hn (fun hw hd hid => ?_)
      cases List.mem_singleton.mp hw
      subst hd hid
      exact .relayPull hjob rfl
  | push =>
      rw [setTask_log] at hn
      exact hserve w _ _ rfl hn
  | arrive => exact hserve { w with net := _ } _ _ rfl hn
  | raw => exact hserve w _ _ rfl hn
  | start => exact Or.inl hn
  | remove => exact Or.inl hn
  | notified | existing | timeoutExisting | kill | timeout =>
      rw [setTask_log] at hn
      exact Or.inl hn

/-- A device pulls live packets. -/
theorem pulled_step (h : StepCase cfg w l w') (hrelay : l.isRelay = false) {pkt : RawPacket π}
    (hp : pkt ∈ w'.pulled d) : pkt ∈ w.pulled d ∨ (0 < pkt.seq
      ∧ w.server.store.get cfg.key pkt.seq = some pkt.payload) := by
  obtain ⟨packets, hn, hmem⟩ := mem_pulled.mp hp
  obtain ⟨id, hlog⟩ := mem_notices.mp hn
  rcases notice_step h hlog with hlog | horigin
  · exact Or.inl (mem_pulled.mpr ⟨packets, mem_notices.mpr ⟨id, hlog⟩, hmem⟩)
  · cases horigin with
    | outer _ _ _ hstep _ hw _ => exact absurd hw (hstep.not_pulled packets)
    | pull _ _ _ hpull =>
        obtain ⟨hlo, _, hget⟩ := (mem_batch hpull).mp hmem
        exact Or.inr ⟨by omega, hget⟩
    | relayPull _ hl =>
        subst hl
        cases hrelay

/-- What the `receive`s of a device hold was pulled. -/
def Held (w : World π n) : Prop :=
  ∀ d, ∀ rx ∈ w.receiving d, ∀ pkt ∈ rx.run.queue, pkt ∈ w.pulled d

theorem held_step (h : StepCase cfg w l w') (hrelay : l.isRelay = false) (hh : Held w) :
    Held w' := by
  intro d rx' hrx' pkt hpkt
  have hcont := continues_step h
  rcases receiving_step h hrelay hrx' with hold | rfl | ⟨rx, hrx, hm⟩
  · exact hcont.pulled (hh d rx' hold pkt hpkt)
  · cases hpkt
  · obtain ⟨env, notices, job, hmove, hlog⟩ := hm.move
    rcases hmove.mem_queue hpkt with hq | ⟨_, _, _, packets, _, _, hmem, rfl⟩
    · exact hcont.pulled (hh d rx hrx pkt hq)
    · refine mem_pulled.mpr ⟨packets, mem_notices.mpr ⟨job, ?_⟩, hmem⟩
      rw [hlog]
      exact List.mem_append_right _ (List.mem_singleton_self _)

end World

end Paranoia
