import Paranoia.Proof.Poison
import Paranoia.Proof.Provenance
import Paranoia.Proof.SentOnce
import Paranoia.Proof.Snapshot

/-!
# Delivery

A displayable packet of one account is due to every device of the other: it must end up as a
row at its number, or, where the device has no key for it, among the undecryptable packets a
`receive` counts. `Lossless` says that no packet at or below a cursor misses this, and none
that was accepted before a completed `receive` began.

It can fail in six ways, each in one step, and `LosslessStep` excludes just these: a push that
lands where a cursor or a running `receive` is past it, a body announced over a packet that is
not kept, a row of another message at the packet's number, a sweep over a due number, a call
that fails or is killed after it counted one. In a run without these steps nothing is lost
(`lossless_reachable`). That the first of them happens by itself, between the two reads of a
map, is `message_lost`.
-/

namespace Paranoia

variable {κ π : Type} {n : Nat}

/-- The packets that a completed `receive` could not decrypt. -/
def Notice.counted : Notice π → List Nat
  | .received _ errors => errors
  | _ => []

namespace World

section Defs

variable [DecidableEq π] (cfg : Setup κ n) (w : World π n)

/-- The displayable packets that a push of the other account brings to a device. -/
def dueFrom (d : Fin n) (req : PushRequest π) : List PacketInner :=
  if req.dialogue = cfg.key ∧ req.sender ≠ (cfg.device d).username then
    (List.finRange n).flatMap (fun d' =>
      if (cfg.device d').username = req.sender then
        (w.notices d').filterMap (fun
          | .composed seq inner payload =>
              if seq = req.seq ∧ payload = req.payload ∧ inner.content.isDisplayable = true then
                some inner
              else none
          | _ => none)
      else [])
  else []

/-- The accepted pushes with the packets they bring to a device. -/
def due (d : Fin n) : List (PushRequest π × PacketInner) :=
  w.accepted.flatMap (fun a => (w.dueFrom cfg d a.2).map (fun inner => (a.2, inner)))

/-- The device has a row at the packet's number that shows it. -/
def Shown (d : Fin n) (p : PushRequest π × PacketInner) : Prop :=
  ∃ m ∈ (w.store d).messages.rows, m.dialogue = cfg.key ∧ m.serverSeq = some p.1.seq ∧ m.Shows p.2

/-- A `receive` of the device that is running or completed has counted the number. -/
def Counted (d : Fin n) (s : Nat) : Prop :=
  (∃ rx ∈ w.receiving d, s ∈ rx.run.decryptErrors) ∨ ∃ what ∈ w.notices d, s ∈ what.counted

variable [Aead κ π]

/-- The packet is stored, or counted if the device cannot decrypt it. -/
def Kept (d : Fin n) (p : PushRequest π × PacketInner) : Prop :=
  w.Shown cfg d p ∨ ((cfg.device d).decryptPacket p.1.seq p.1.payload = none ∧ w.Counted d p.1.seq)

instance (d : Fin n) (p : PushRequest π × PacketInner) : Decidable (w.Kept cfg d p) :=
  inferInstanceAs (Decidable ((∃ m ∈ _, _) ∨ (_ ∧ ((∃ rx ∈ _, _) ∨ ∃ what ∈ _, _))))

/-- Where a due push lands, neither the cursor of the device nor a `receive` running on it is
past it. -/
def LandsAhead (req : PushRequest π) : Prop :=
  w.Accepts req → ∀ d, w.dueFrom cfg d req ≠ [] → w.Lands cfg d req.seq

/-- The next step a `receive` takes by itself loses no due packet. -/
def Harmless (d : Fin n) (now : Int) (r : Receive π) : Prop :=
  match r.point with
  | .packet pkt _ _ _ _ =>
      (∀ p ∈ w.due cfg d, (cfg.device d).announces pkt p.1.seq = true → w.Kept cfg d p)
        ∧ (∀ p ∈ w.due cfg d, p.1.seq = pkt.seq →
            w.Kept cfg d p ∨ (w.store d).getMessageBySeq cfg.key pkt.seq = none)
        ∧ ((cfg.device d).Digestible now (w.store d) pkt
            ∨ ∀ p ∈ w.due cfg d, p.1.seq ∉ r.decryptErrors)
  | .delete tombstones => ∀ p ∈ w.due cfg d, p.1.seq ∉ tombstones
  | _ => True

instance (req : PushRequest π) : Decidable (w.LandsAhead cfg req) :=
  inferInstanceAs (Decidable (_ → ∀ _, _ ≠ _ → _))

instance (d : Fin n) (now : Int) (r : Receive π) : Decidable (w.Harmless cfg d now r) := by
  unfold Harmless
  exact match r.point with
    | .map .. | .scanned .. | .load | .pull .. | .skip .. | .packet .. | .advance .. | .bump | .sweep
    | .delete .. | .done => by infer_instance

/-- A step of an honest server that deletes nothing and of honest clients, in which no due packet
gets lost. -/
def LosslessStep (l : Label π n) : Prop :=
  (l.isRelay = false ∧ l.isRemoval = false ∧ l.isRaw = false)
    ∧ (∀ a ∈ w.incoming l, w.LandsAhead cfg a.2) ∧
    match l with
    | .localStep id env => ∀ job ∈ w.job id, ∀ rx ∈ job.task.rx, w.Harmless cfg job.dev env.now rx.run
    | .kill id => ∀ job ∈ w.job id, ∀ rx ∈ job.task.rx, ∀ p ∈ w.due cfg job.dev,
        p.1.seq ∉ rx.run.decryptErrors
    | _ => True

instance (l : Label π n) : Decidable (w.LosslessStep cfg l) := by
  unfold LosslessStep
  refine @instDecidableAnd _ _ _ (@instDecidableAnd _ _ _ ?_)
  exact match l with
    | .start .. | .localStep .. | .notified .. | .scan .. | .lastSeq .. | .pull .. | .existing ..
    | .push .. | .timeout .. | .arrive .. | .raw .. | .relayMap .. | .relayPull .. | .relayExisting ..
    | .kill .. | .remove .. => by infer_instance

/-- Every due packet at or below a cursor is kept. -/
def NothingLost : Prop :=
  ∀ d, ∀ p ∈ w.due cfg d, p.1.seq ≤ w.cursor cfg d → w.Kept cfg d p

/-- Every packet that was due to a device when one of its completed `receive`s began is kept. -/
def AllDelivered : Prop :=
  ∀ d since errors, .received since errors ∈ w.notices d →
    ∀ id req, .accepted id req ∈ w.log.take since →
      ∀ inner ∈ w.dueFrom cfg d req, w.Kept cfg d (req, inner)

/-- No message is lost. -/
structure Lossless : Prop where
  cursor : w.NothingLost cfg
  receive : w.AllDelivered cfg

end Defs

/-! ## Ids -/

section Ids

variable [Aead κ π] {cfg : Setup κ n} {w : World π n} {d : Fin n}

/-- A payload was composed for one packet. -/
theorem composed_unique (hcomp : Composing cfg w) {d₁ d₂ : Fin n} {s : Nat}
    {inner₁ inner₂ : PacketInner} {payload : π} (h₁ : .composed s inner₁ payload ∈ w.notices d₁)
    (h₂ : .composed s inner₂ payload ∈ w.notices d₂) : inner₁ = inner₂ :=
  opens hcomp h₂ (opens_own hcomp h₁)

/-- The row of a displayable packet has an id that was drawn for the packet's number. -/
theorem rowId_issued (hcomp : Composing cfg w) {seq : Nat} {inner : PacketInner} {payload : π}
    (hc : .composed seq inner payload ∈ w.notices d) (hdisp : inner.content.isDisplayable = true) :
    ⟨inner.rowId, seq, d⟩ ∈ w.issued := by
  cases (hcomp.made d _ _ _ hc).source with
  | send hsendable hissued =>
      rw [rowId_of_sendable hsendable]
      exact hissued
  | @transfer t i hreserved hi hpacket hseq =>
      cases i with
      | zero =>
          rw [(packet_rowId hpacket).2, hseq, Nat.add_zero]
          exact (hcomp.planned d t hreserved).issued
      | succ i =>
          -- the other packets of a transfer are chunks
          simp only [OutboundTransfer.packet, Option.bind_eq_some_iff, Option.map_eq_some_iff]
            at hpacket
          obtain ⟨_, _, _, _, rfl⟩ := hpacket
          cases hdisp

/-- An id was drawn once. -/
theorem issued_unique (hcomp : Composing cfg w) {i j : Issued n} (hi : i ∈ w.issued)
    (hj : j ∈ w.issued) (h : i.id = j.id) : i = j :=
  List.inj_on_of_nodup_map hcomp.unique hi hj h

/-- A message a device saves for a call of its own has an id drawn on that device. -/
theorem saves_issued (hcomp : Composing cfg w) {m : Message} (hs : w.Saves cfg d m) :
    ∃ seq, ⟨m.id, seq, d⟩ ∈ w.issued := by
  obtain ⟨job, hjob, rfl, _, env, hsaves⟩ := hs
  cases ho : job.task.outer with
  | save call id seq =>
      rw [ho] at hsaves
      cases hsaves
      obtain ⟨req, _, rfl, _, inner, hc, rfl, hcontent⟩ := hcomp.saved job hjob _ _ _ ho
      have hsendable : inner.content.isSendable = true := by
        rw [hcontent]
        exact hcomp.sends job hjob call (by rw [ho]; rfl)
      cases (hcomp.made _ _ _ _ hc).source with
      | send _ hissued => exact ⟨_, hissued⟩
      | transfer _ _ hpacket _ =>
          rw [(packet_rowId hpacket).1] at hsendable
          cases hsendable
  | saveSending t =>
      rw [ho] at hsaves
      cases hsaves
      have hwork : t ∈ w.working job.dev :=
        mem_working_of_job hjob (by rw [ho]; exact List.mem_singleton_self _)
      exact ⟨_, (hcomp.planned _ _ (hcomp.working _ t hwork)).issued⟩
  | _ =>
      rw [ho] at hsaves
      cases hsaves

end Ids

/-! ## What is due -/

section Due

variable [DecidableEq π] {cfg : Setup κ n} {w w' : World π n} {d : Fin n}

theorem mem_dueFrom {req : PushRequest π} {inner : PacketInner} :
    inner ∈ w.dueFrom cfg d req ↔
      (req.dialogue = cfg.key ∧ req.sender ≠ (cfg.device d).username)
        ∧ inner.content.isDisplayable = true
        ∧ ∃ d', (cfg.device d').username = req.sender
          ∧ .composed req.seq inner req.payload ∈ w.notices d' := by
  unfold dueFrom
  split
  · rename_i hother
    rw [List.mem_flatMap]
    constructor
    · rintro ⟨d', _, hmem⟩
      split at hmem
      · rename_i hd'
        obtain ⟨what, hwhat, hsome⟩ := List.mem_filterMap.mp hmem
        cases what with
        | composed seq inner' payload =>
            dsimp only at hsome
            split at hsome
            · rename_i hcond
              obtain ⟨rfl, rfl, hdisp⟩ := hcond
              cases hsome
              exact ⟨hother, hdisp, d', hd', hwhat⟩
            · cases hsome
        | _ => cases hsome
      · cases hmem
    · rintro ⟨_, hdisp, d', hd', hwhat⟩
      refine ⟨d', List.mem_finRange d', ?_⟩
      rw [if_pos hd']
      exact List.mem_filterMap.mpr ⟨_, hwhat, if_pos ⟨rfl, rfl, hdisp⟩⟩
  · rename_i hother
    exact ⟨fun h => absurd h List.not_mem_nil, fun h => absurd h.1 hother⟩

theorem mem_due {p : PushRequest π × PacketInner} :
    p ∈ w.due cfg d ↔ (∃ id, (id, p.1) ∈ w.accepted) ∧ p.2 ∈ w.dueFrom cfg d p.1 := by
  simp only [due, List.mem_flatMap, List.mem_map]
  constructor
  · rintro ⟨⟨id, req⟩, ha, inner, hin, rfl⟩
    exact ⟨⟨id, ha⟩, hin⟩
  · rintro ⟨⟨id, ha⟩, hin⟩
    exact ⟨_, ha, p.2, hin, rfl⟩

/-- What a push brings to a device is settled when it is written. -/
theorem dueFrom_of_written [Aead κ π] (hcomp : Composing cfg w') (hc : Continues w w') {d₀ : Fin n}
    {req : PushRequest π} (hw : w.Written cfg d₀ req) {inner : PacketInner}
    (h : inner ∈ w'.dueFrom cfg d req) : inner ∈ w.dueFrom cfg d req := by
  obtain ⟨hother, hdisp, d', _, hcomposed⟩ := mem_dueFrom.mp h
  obtain ⟨inner₀, hcomposed₀⟩ := hw.composed
  obtain rfl : inner = inner₀ := composed_unique hcomp hcomposed (hc.notices hcomposed₀)
  exact mem_dueFrom.mpr ⟨hother, hdisp, d₀, hw.sender.symm, hcomposed₀⟩

end Due

/-! ## Undecryptable packets -/

end World

namespace Receive

variable {r : Receive π}

@[simp] theorem decryptErrors_nextRun (todo : List (Nat × Nat)) :
    (r.nextRun todo).decryptErrors = r.decryptErrors := by
  induction todo with
  | nil => rfl
  | cons run todo ih =>
      rw [nextRun]
      split
      · exact ih
      · split
        · rfl
        · exact ih

@[simp] theorem decryptErrors_nextBatch (seq stop : Nat) (todo : List (Nat × Nat)) :
    (r.nextBatch seq stop todo).decryptErrors = r.decryptErrors := by
  unfold nextBatch
  split
  · rfl
  · exact decryptErrors_nextRun todo

@[simp] theorem decryptErrors_nextPacket (queue : List (RawPacket π)) (batchEnd stop : Nat)
    (todo : List (Nat × Nat)) :
    (r.nextPacket queue batchEnd stop todo).decryptErrors = r.decryptErrors := by
  cases queue with
  | nil => exact decryptErrors_nextBatch _ _ _
  | cons pkt queue => rfl

@[simp] theorem decryptErrors_onPull (packets : List (RawPacket π)) (seq stop : Nat)
    (todo : List (Nat × Nat)) :
    (r.onPull packets seq stop todo).decryptErrors = r.decryptErrors := by
  unfold onPull
  split <;> rfl

@[simp] theorem decryptErrors_onMap (m : MapResult) :
    (r.onMap m).decryptErrors = r.decryptErrors := by
  unfold onMap
  dsimp only
  split <;> rfl

end Receive

/-- A call never forgets a packet it counted. -/
theorem RxMove.counted [Aead κ π] {c : Client κ} {env : Env} {ps : PacketStore π}
    {st st' : LocalStore} {r r' : Receive π} {notices : List (Notice π)}
    (h : RxMove c env ps st r st' r' notices) {s : Nat} (hs : s ∈ r.decryptErrors) :
    s ∈ r'.decryptErrors := by
  cases h with
  | packet => exact List.mem_append_left _ hs
  | _ => simpa using hs

namespace World

variable [Aead κ π] {cfg : Setup κ n} {w w' : World π n} {l : Label π n} {d : Fin n}

/-- **Where a running `receive` goes**: it goes on with what it has counted, it returns it, or it
ends by being killed or at a packet. -/
theorem rx_step (h : StepCase cfg w l w') (hrelay : l.isRelay = false) (hnum : Numbered w)
    {job : Job π n} {rx : Rx π} (hjob : job ∈ w.jobs) (hrx : job.task.rx = some rx) :
    (∃ rx' ∈ w'.receiving job.dev, ∀ s ∈ rx.run.decryptErrors, s ∈ rx'.run.decryptErrors)
      ∨ .received rx.since rx.run.decryptErrors ∈ w'.notices job.dev
      ∨ l = .kill job.id
      ∨ ∃ env pkt queue batchEnd stop todo, l = .localStep job.id env
          ∧ rx.run.point = .packet pkt queue batchEnd stop todo := by
  -- a call that another call's step does not touch stays as it is
  have hstays : job ∈ w'.jobs →
      ∃ rx' ∈ w'.receiving job.dev, ∀ s ∈ rx.run.decryptErrors, s ∈ rx'.run.decryptErrors :=
    fun hj => ⟨rx, mem_receiving.mpr ⟨job, hj, rfl, hrx⟩, fun _ h => h⟩
  have hset : ∀ (w₁ : World π n) (j : Job π n) (task : Option (Task π)), w₁.jobs = w.jobs →
      job.id ≠ j.id → job ∈ (w₁.setTask j task).jobs := by
    intro w₁ j task hjobs hne
    cases task with
    | none => exact Table.mem_deleteWhere.mpr ⟨hjobs ▸ hjob, by simpa using hne⟩
    | some t => exact Table.mem_insertOrReplace.mpr (Or.inl ⟨hjobs ▸ hjob, hne⟩)
  -- a call outside of `receive` is another one
  have houter : ∀ j ∈ w.jobs, j.task.rx = none → job.id ≠ j.id := by
    intro j hj hnone hid
    obtain rfl := Table.eq_of_key hjob hj hid
    rw [hrx] at hnone
    cases hnone
  cases h with
  | start =>
      refine Or.inl (hstays (Table.mem_insertOrReplace.mpr (Or.inl ⟨hjob, ?_⟩)))
      exact Nat.ne_of_lt (hnum.jobs job hjob)
  | outer hj hnone => exact Or.inl (hstays (hset (w.setStore _ _) _ _ rfl (houter _ hj hnone)))
  | @run j rx₁ _ st run notices env hj hrx₁ hmove =>
      by_cases hid : job.id = j.id
      · obtain rfl := Table.eq_of_key hjob hj hid
        rw [hrx] at hrx₁
        cases hrx₁
        exact Or.inl ⟨_, mem_receiving_moved, fun s hs => hmove.counted hs⟩
      · exact Or.inl (hstays (hset (w.setStore _ _) _ _ rfl hid))
  | @finish j env rx₁ task hj hrx₁ hdone =>
      by_cases hid : job.id = j.id
      · obtain rfl := Table.eq_of_key hjob hj hid
        rw [hrx] at hrx₁
        cases hrx₁
        refine Or.inr (Or.inl (mem_notices.mpr ⟨job.id, ?_⟩))
        rw [moved_log]
        exact List.mem_append_right _ (List.mem_singleton_self _)
      · exact Or.inl (hstays (hset (w.setStore _ _) _ _ rfl hid))
  | @fails j env rx₁ pkt queue batchEnd stop todo inner st e hj hrx₁ hp =>
      by_cases hid : job.id = j.id
      · obtain rfl := Table.eq_of_key hjob hj hid
        rw [hrx] at hrx₁
        cases hrx₁
        exact Or.inr (Or.inr (Or.inr ⟨env, pkt, queue, batchEnd, stop, todo, rfl, hp⟩))
      · exact Or.inl (hstays (hset (w.setStore _ _) _ _ rfl hid))
  | relayMap => cases hrelay
  | relayPull => cases hrelay
  | notified hj hnone => exact Or.inl (hstays (hset w _ _ rfl (houter _ hj hnone)))
  | existing _ hj hnone => exact Or.inl (hstays (hset w _ _ rfl (houter _ hj hnone)))
  | push hj hnone => exact Or.inl (hstays (hset (w.serve _ _).1 _ _ rfl (houter _ hj hnone)))
  | timeout hj hnone => exact Or.inl (hstays (hset (w.delay _ _) _ _ rfl (houter _ hj hnone)))
  | timeoutExisting hj hnone => exact Or.inl (hstays (hset w _ _ rfl (houter _ hj hnone)))
  | @kill j hj =>
      by_cases hid : job.id = j.id
      · exact Or.inr (Or.inr (Or.inl (by rw [hid])))
      · exact Or.inl (hstays (hset w _ _ rfl hid))
  | arrive => exact Or.inl (hstays hjob)
  | raw => exact Or.inl (hstays hjob)
  | remove => exact Or.inl (hstays hjob)

/-- A digestible packet does not end the call. -/
theorem rx_digests {env : Env} {job : Job π n} {rx : Rx π} {pkt : RawPacket π}
    {queue : List (RawPacket π)} {batchEnd stop : Nat} {todo : List (Nat × Nat)}
    (hs : step cfg w (.localStep job.id env) = some w') (hjob : job ∈ w.jobs)
    (hrx : job.task.rx = some rx) (hp : rx.run.point = .packet pkt queue batchEnd stop todo)
    (hdig : (cfg.device job.dev).Digestible env.now (w.store job.dev) pkt) :
    ∃ rx' ∈ w'.receiving job.dev, ∀ s ∈ rx.run.decryptErrors, s ∈ rx'.run.decryptErrors := by
  obtain ⟨run, hrun⟩ : ∃ run, (Receive.onPacket (cfg.device job.dev) env.now (w.store job.dev)
      rx.run pkt queue batchEnd stop todo).2 = .ok run := Receive.onPacket_ok.mpr hdig
  generalize hst : (Receive.onPacket (cfg.device job.dev) env.now (w.store job.dev) rx.run pkt
    queue batchEnd stop todo).1 = st
  have hlocal : rx.run.localStep (cfg.device job.dev) env.now (w.store job.dev)
      = some (st, .ok run) := by
    simp only [Receive.localStep, hp]
    exact congrArg some (Prod.ext hst hrun)
  have hmove : RxMove (cfg.device job.dev) env w.server.store (w.store job.dev) rx.run st run [] :=
    localStep_inv hlocal
  rw [stepLocal_rx hjob hrx hlocal] at hs
  cases hs
  exact ⟨_, mem_receiving_moved, fun s h => hmove.counted h⟩

/-! ## What is kept stays kept -/

/-- What every run keeps on an honest server that deletes nothing. -/
structure Honest (cfg : Setup κ n) (w : World π n) : Prop where
  composing : Composing cfg w
  made : ∀ a ∈ w.accepted, ∃ id, a.1 = some id
  live : ∀ a ∈ w.accepted, w.server.store.get a.2.dialogue a.2.seq = some a.2.payload
  stored : Stored cfg w
  range : ∀ s ∈ w.server.store.live cfg.key, s < u64Size
  numbered : Numbered w

/-- The packets the `receive`s of a device hold were accepted. -/
def Holds (cfg : Setup κ n) (w : World π n) : Prop :=
  ∀ d, ∀ rx ∈ w.receiving d, ∀ pkt ∈ rx.run.queue,
    ∃ a ∈ w.accepted, a.2.dialogue = cfg.key ∧ ⟨a.2.seq, a.2.payload⟩ = pkt

theorem Honest.written (hi : Honest cfg w) {a : Option Nat × PushRequest π} (ha : a ∈ w.accepted) :
    ∃ d, w.Written cfg d a.2 := by
  obtain ⟨id, req⟩ := a
  obtain ⟨id', hid⟩ := hi.made _ ha
  cases hid
  exact hi.composing.accepted id' req ha

theorem holds_step (h : StepCase cfg w l w') (hrelay : l.isRelay = false) (hi : Honest cfg w)
    (hh : Holds cfg w) : Holds cfg w' := by
  intro d rx' hrx' pkt hpkt
  have hacc : ∀ a ∈ w.accepted, a ∈ w'.accepted := fun a ha => (continues_step h).accepted ha
  rcases queue_step h hrx' hpkt with ⟨rx, hrx, hq⟩ | ⟨_, hget⟩ | ⟨_, _, _, _, hl, _⟩
  · obtain ⟨a, ha, hd, he⟩ := hh d rx hrx pkt hq
    exact ⟨a, hacc a ha, hd, he⟩
  · obtain ⟨a, ha, hd, he⟩ := hi.stored pkt (PacketStore.mem_packets.mpr hget)
    exact ⟨a, hacc a ha, hd, he⟩
  · subst hl
    cases hrelay

variable [DecidableEq π]

omit [Aead κ π] in
/-- A due packet was composed by a device of the other account. -/
theorem composed_of_due {p : PushRequest π × PacketInner} (hp : p ∈ w.due cfg d) :
    ∃ d', (cfg.device d').username ≠ (cfg.device d).username
      ∧ p.2.content.isDisplayable = true ∧ .composed p.1.seq p.2 p.1.payload ∈ w.notices d' := by
  obtain ⟨⟨_, hother⟩, hdisp, d', hd', hc⟩ := mem_dueFrom.mp (mem_due.mp hp).2
  exact ⟨d', hd' ▸ hother, hdisp, hc⟩

/-- A packet that is due was due before, or has just been pushed to a free number. -/
theorem due_step (h : StepCase cfg w l w') (hraw : l.isRaw = false) (hi : Honest cfg w)
    {p : PushRequest π × PacketInner} (hp : p ∈ w'.due cfg d) :
    p ∈ w.due cfg d ∨ (∃ id, w.incoming l = some (id, p.1) ∧ w.Accepts p.1
      ∧ p.2 ∈ w.dueFrom cfg d p.1 ∧ w.server.store.get cfg.key p.1.seq = none
      ∧ w'.server.store = w.server.store.put cfg.key p.1.seq p.1.payload) := by
  have hcont := continues_step h
  have hcomp' := composing_step h hi.composing
  obtain ⟨⟨id, ha⟩, hdue⟩ := mem_due.mp hp
  have hdialogue := (mem_dueFrom.mp hdue).1.1
  rcases accepted_step h ha with hold | ⟨hin, hacc, _, _, hfree, hput, _⟩
  · obtain ⟨d₀, hw⟩ := hi.written hold
    exact Or.inl (mem_due.mpr ⟨⟨id, hold⟩, dueFrom_of_written hcomp' hcont hw hdue⟩)
  · obtain ⟨id', hid⟩ := incoming_isSome hraw hin
    cases hid
    obtain ⟨d₀, hw⟩ := incoming_written hi.composing hin
    rw [hdialogue] at hfree hput
    exact Or.inr ⟨_, hin, hacc, dueFrom_of_written hcomp' hcont hw hdue, hfree, hput⟩

/-- At a number that holds a due packet no other becomes due. -/
theorem due_unique (h : StepCase cfg w l w') (hraw : l.isRaw = false) (hi : Honest cfg w)
    {p q : PushRequest π × PacketInner} (hq : q ∈ w.due cfg d) (hp : p ∈ w'.due cfg d)
    (hseq : p.1.seq = q.1.seq) : p ∈ w.due cfg d := by
  rcases due_step h hraw hi hp with hold | ⟨_, _, _, _, hfree, _⟩
  · exact hold
  · obtain ⟨⟨id, ha⟩, hdue⟩ := mem_due.mp hq
    have hget := hi.live _ ha
    rw [(mem_dueFrom.mp hdue).1.1, ← hseq, hfree] at hget
    cases hget

/-- A packet with the number of a due one is that one. -/
theorem due_packet (hi : Honest cfg w) {p : PushRequest π × PacketInner} (hp : p ∈ w.due cfg d)
    {a : Option Nat × PushRequest π} (ha : a ∈ w.accepted) (hd : a.2.dialogue = cfg.key)
    (hseq : a.2.seq = p.1.seq) : a.2.payload = p.1.payload := by
  obtain ⟨⟨id, hacc⟩, hdue⟩ := mem_due.mp hp
  have h₁ := hi.live _ hacc
  have h₂ := hi.live _ ha
  rw [(mem_dueFrom.mp hdue).1.1] at h₁
  rw [hd, hseq, h₁] at h₂
  exact (Option.some.inj h₂).symm

theorem isDisplayable_of_incoming {c : Client κ} {now : Int} {inner : PacketInner} {seq : Nat}
    {m : Message} (h : c.incomingMessage now inner seq = some m) :
    inner.content.isDisplayable = true := by
  unfold Client.incomingMessage at h
  unfold MessageContent.isDisplayable
  cases hc : inner.content <;> rw [hc] at h <;> first | rfl | cases h

/-- **A row that shows a due packet stays.** Nothing else is saved under its id, and no sweep of the
step takes it. -/
theorem shown_step (h : StepCase cfg w l w') (hi : Honest cfg w) (hh : Holds cfg w)
    (hok : w.LosslessStep cfg l) {p : PushRequest π × PacketInner} (hp : p ∈ w.due cfg d)
    (hs : w.Shown cfg d p) : w'.Shown cfg d p := by
  obtain ⟨m, hm, hdialogue, hseq, hshows⟩ := hs
  obtain ⟨d', hother, hdisp, hc⟩ := composed_of_due hp
  have hissued := rowId_issued hi.composing hc hdisp
  rcases row_kept h (Table.mem_def.mpr hm) with ⟨m', hm', hsame⟩ | ⟨m', hnew, hid⟩ |
    ⟨job, hjob, rfl, ⟨env, rfl⟩, rx, ts, hrx, hpoint, _, s, hts, hs⟩
  · refine ⟨m', Table.mem_def.mp hm', ?_, ?_, hshows.congr hsame⟩
    · rw [hsame]
      exact hdialogue
    · rw [hsame]
      exact hseq
  · exfalso
    rw [hshows.1] at hid
    rcases hnew with hsaves | ⟨rx, hrx, pkt, hpkt, inner, now, hdec, hfree, hnew⟩
    · -- own messages have ids of the own device
      obtain ⟨seq, hiss⟩ := saves_issued hi.composing hsaves
      have he := congrArg Issued.dev (issued_unique hi.composing hissued hiss hid)
      exact hother (by rw [show d' = d from he])
    · obtain ⟨a, ha, _, rfl⟩ := hh d rx hrx pkt hpkt
      obtain ⟨d₂, hw⟩ := hi.written ha
      obtain ⟨inner₂, hc₂⟩ := hw.composed
      obtain rfl : inner = inner₂ := opens hi.composing hc₂ hdec
      rcases hnew with hin | hasm
      · -- a packet with this row id has this number, where the row stands
        have hiss := rowId_issued hi.composing hc₂ (isDisplayable_of_incoming hin)
        rw [(incomingMessage_shows hin).1] at hid
        have he := congrArg Issued.seq (issued_unique hi.composing hissued hiss hid)
        refine hfree m (Table.mem_def.mpr hm) ⟨hdialogue.trans (cfg.shared d).symm, ?_⟩
        rw [hseq]
        exact congrArg some he
      · refine hasm.fresh m (Table.mem_def.mpr hm) ⟨hdialogue.trans (cfg.shared d).symm, ?_⟩
        rw [hshows.1, hid]
  · exfalso
    have hharmless := hok.2.2 job (job_of_mem hjob) rx hrx
    unfold Harmless at hharmless
    rw [hpoint] at hharmless
    rw [hseq] at hs
    cases hs
    exact hharmless p hp hts

/-- **What was counted stays counted.** -/
theorem counted_step (hs : step cfg w l = some w') (hi : Honest cfg w)
    (hok : w.LosslessStep cfg l) {p : PushRequest π × PacketInner} (hp : p ∈ w.due cfg d)
    (hc : w.Counted d p.1.seq) : w'.Counted d p.1.seq := by
  have h := step_inv hs
  rcases hc with ⟨rx, hrx, hmem⟩ | ⟨what, hwhat, hmem⟩
  · obtain ⟨job, hjob, rfl, hjrx⟩ := mem_receiving.mp hrx
    rcases rx_step h hok.1.1 hi.numbered hjob hjrx with ⟨rx', hrx', hsub⟩ | hreceived | rfl |
      ⟨env, pkt, queue, batchEnd, stop, todo, rfl, hpoint⟩
    · exact Or.inl ⟨rx', hrx', hsub _ hmem⟩
    · exact Or.inr ⟨_, hreceived, hmem⟩
    · exact absurd hmem (hok.2.2 job (job_of_mem hjob) rx hjrx p hp)
    · have hharmless := hok.2.2 job (job_of_mem hjob) rx hjrx
      unfold Harmless at hharmless
      rw [hpoint] at hharmless
      rcases hharmless.2.2 with hdig | hnone
      · obtain ⟨rx', hrx', hsub⟩ := rx_digests hs hjob hjrx hpoint hdig
        exact Or.inl ⟨rx', hrx', hsub _ hmem⟩
      · exact absurd hmem (hnone p hp)
  · exact Or.inr ⟨what, (continues_step h).notices hwhat, hmem⟩

/-- **What is kept stays kept.** -/
theorem kept_step (hs : step cfg w l = some w') (hi : Honest cfg w) (hh : Holds cfg w)
    (hok : w.LosslessStep cfg l) {p : PushRequest π × PacketInner} (hp : p ∈ w.due cfg d)
    (hk : w.Kept cfg d p) : w'.Kept cfg d p :=
  hk.imp (shown_step (step_inv hs) hi hh hok hp) (And.imp_right (counted_step hs hi hok hp))

end World

/-- A displayable packet that is processed where no row stands is stored. -/
theorem Client.processIncoming_stores {c : Client κ} {now : Int} {st st' : LocalStore}
    {inner : PacketInner} {seq : Nat} {msg : Option Message}
    (hfree : st.getMessageBySeq c.key seq = none) (hdisp : inner.content.isDisplayable = true)
    (h : c.processIncoming now st inner seq = (st', .ok msg)) :
    ∃ m ∈ st'.messages, m.dialogue = c.key ∧ m.serverSeq = some seq ∧ m.Shows inner := by
  have hsaved : ∃ m, c.incomingMessage now inner seq = some m ∧ st' = st.saveMessage m := by
    unfold Client.processIncoming at h
    rw [hfree, if_neg (by simp)] at h
    unfold Client.incomingMessage
    cases hc : inner.content with
    | readReceipt | delete | fileChunk =>
        rw [hc] at hdisp
        cases hdisp
    | fileHeader transferId kind filename mimeType totalSize chunks groupId =>
        rw [hc] at h
        dsimp only at h ⊢
        cases hadd : checkedAdd seq chunks with
        | none =>
            rw [hadd] at h
            cases h
        | some bodyToSeq =>
            rw [hadd] at h
            cases h
            exact ⟨_, rfl, rfl⟩
    | _ =>
        rw [hc] at h
        cases h
        exact ⟨_, rfl, rfl⟩
  obtain ⟨m, hin, rfl⟩ := hsaved
  obtain ⟨hdialogue, hseq, _⟩ := incomingMessage_place hin
  exact ⟨m, LocalStore.mem_saveMessage.mpr (Or.inr rfl), hdialogue, hseq, incomingMessage_shows hin⟩

namespace World

variable [DecidableEq π] [Aead κ π] {cfg : Setup κ n} {w w' : World π n} {l : Label π n} {d : Fin n}

/-- What a `receive` is about to process is harmless in a lossless step. -/
theorem harmless_packet (hok : w.LosslessStep cfg l) {rx rx' : Rx π}
    (hm : Moves cfg w l d rx rx' w') {pkt : RawPacket π} {queue : List (RawPacket π)}
    {batchEnd stop : Nat} {todo : List (Nat × Nat)}
    (hp : rx.run.point = .packet pkt queue batchEnd stop todo) :
    (∀ p ∈ w.due cfg d, (cfg.device d).announces pkt p.1.seq = true → w.Kept cfg d p)
      ∧ ∀ p ∈ w.due cfg d, p.1.seq = pkt.seq →
          w.Kept cfg d p ∨ (w.store d).getMessageBySeq cfg.key pkt.seq = none := by
  rcases hm.label with hwaits | ⟨job, hjob, rfl, hrx, env, rfl⟩
  · rw [Receive.waits, hp] at hwaits
    cases hwaits
  · have hharmless := hok.2.2 job (job_of_mem hjob) rx hrx
    unfold Harmless at hharmless
    rw [hp] at hharmless
    exact ⟨hharmless.1, hharmless.2.1⟩

/-- **A due packet that is processed is kept.** -/
theorem kept_packet (hs : step cfg w l = some w') (hi : Honest cfg w) (hh : Holds cfg w)
    (hok : w.LosslessStep cfg l) {rx rx' : Rx π} (hrx : rx ∈ w.receiving d)
    (hm : Moves cfg w l d rx rx' w') {now : Int} {pkt : RawPacket π}
    {queue : List (RawPacket π)} {batchEnd stop : Nat} {todo : List (Nat × Nat)}
    (hpoint : rx.run.point = .packet pkt queue batchEnd stop todo) {target : Nat}
    {own : Option MessageId} {skipUntil : Option Nat} {counted : List Nat}
    (hstep : PacketStep (cfg.device d) now (w.store d) pkt (w'.store d) target own skipUntil counted)
    (herrors : rx'.run.decryptErrors = rx.run.decryptErrors ++ counted)
    {p : PushRequest π × PacketInner} (hp : p ∈ w.due cfg d) (hseq : p.1.seq = pkt.seq) :
    w'.Kept cfg d p := by
  obtain ⟨a, ha, hdialogue, rfl⟩ := hh d rx hrx pkt (by simp [Receive.queue, hpoint])
  have hpayload := due_packet hi hp ha hdialogue hseq.symm
  obtain ⟨d', hother, hdisp, hc⟩ := composed_of_due hp
  have hopen : ∀ {inner : PacketInner}, (cfg.device d).decryptPacket a.2.seq a.2.payload = some inner →
      inner = p.2 := by
    intro inner hdec
    rw [hpayload] at hdec
    exact opens hi.composing hc hdec
  generalize hst : w'.store d = st' at hstep
  cases hstep with
  | undecryptable hdec =>
      rw [hpayload, ← hseq] at hdec
      refine Or.inr ⟨hdec, Or.inl ⟨rx', hm.running, ?_⟩⟩
      rw [herrors, hseq]
      exact List.mem_append_right _ (List.mem_singleton_self _)
  | own hdec _ hsender =>
      -- the other account's packets are not the device's own
      rw [hopen hdec, (hi.composing.made _ _ _ _ hc).sender] at hsender
      exact absurd hsender hother
  | processed hdec _ hproc =>
      obtain rfl := hopen hdec
      rcases (harmless_packet hok hm hpoint).2 p hp hseq with hkept | hfree
      · exact kept_step hs hi hh hok hp hkept
      · rw [← cfg.shared d] at hfree
        obtain ⟨m, hmem, hd, hat, hshows⟩ := Client.processIncoming_stores hfree hdisp hproc
        rw [← hst] at hmem
        refine Or.inl ⟨m, Table.mem_def.mp hmem, hd.trans (cfg.shared d), ?_, hshows⟩
        rw [hat, hseq]

/-! ## The runs -/

/-- Nothing was accepted at the number before `since`. -/
def NewSince (cfg : Setup κ n) (w : World π n) (since s : Nat) : Prop :=
  since ≤ w.log.length
    ∧ ∀ id req, .accepted id req ∈ w.log.take since → req.dialogue = cfg.key → req.seq ≠ s

omit [DecidableEq π] [Aead κ π] in
/-- The beginning of the log does not change. -/
theorem Continues.take (hc : Continues w w') {since : Nat} (h : since ≤ w.log.length) :
    w'.log.take since = w.log.take since := by
  obtain ⟨events, hlog⟩ := hc
  rw [hlog, List.take_append_of_le_length h]

omit [DecidableEq π] [Aead κ π] in
theorem NewSince.mono (hc : Continues w w') {since s : Nat} (h : w.NewSince cfg since s) :
    w'.NewSince cfg since s := by
  refine ⟨?_, ?_⟩
  · obtain ⟨events, hlog⟩ := hc
    rw [hlog, List.length_append]
    exact Nat.le_trans h.1 (Nat.le_add_right _ _)
  · rw [hc.take h.1]
    exact h.2

/-- A packet with this number is due to the device. -/
def DueAt (cfg : Setup κ n) (w : World π n) (d : Fin n) (s : Nat) : Prop :=
  ∃ p ∈ w.due cfg d, p.1.seq = s

/-- What is due to the device at this number is kept. -/
def KeptAt (cfg : Setup κ n) (w : World π n) (d : Fin n) (s : Nat) : Prop :=
  ∀ p ∈ w.due cfg d, p.1.seq = s → w.Kept cfg d p

/-- What a run of lossless steps keeps. -/
structure Delivering (cfg : Setup κ n) (w : World π n) : Prop where
  holds : Holds cfg w
  positive : ∀ d s, w.DueAt cfg d s → 0 < s
  begun : ∀ d, ∀ rx ∈ w.receiving d, rx.since ≤ w.log.length
  ended : ∀ d since errors, .received since errors ∈ w.notices d → since ≤ w.log.length
  tracks : Tracks cfg w (fun d s => w.DueAt cfg d s) (fun d s => w.KeptAt cfg d s)
    (fun _ since s => w.NewSince cfg since s)
  delivered : w.AllDelivered cfg

omit [DecidableEq π] in
theorem OuterStep.not_received {c : Client κ} {env : Env} {st : LocalStore} {outer : Outer π}
    {out : Local π} (h : OuterStep c env st outer out) (since : Nat) (errors : List Nat) :
    .received since errors ∉ out.notices := by
  cases h <;> simp

theorem delivering_init : Delivering cfg (init cfg : World π n) where
  holds _ _ hrx := absurd hrx List.not_mem_nil
  positive _ _ hs := absurd hs.choose_spec.1 List.not_mem_nil
  begun _ _ hrx := absurd hrx List.not_mem_nil
  ended _ _ _ hn := absurd hn List.not_mem_nil
  tracks :=
    { cursor := fun _ _ hs => absurd hs.choose_spec.1 List.not_mem_nil
      running := fun _ _ hrx => absurd hrx List.not_mem_nil }
  delivered _ _ _ hn := absurd hn List.not_mem_nil

/-- The cursors and the running `receive`s pass over nothing that is due and not kept. -/
theorem tracks_due (hs : step cfg w l = some w') (hok : w.LosslessStep cfg l) (hi : Honest cfg w)
    (hd : Delivering cfg w) (hpos : ∀ d s, w'.DueAt cfg d s → 0 < s) :
    Tracks cfg w' (fun d s => w'.DueAt cfg d s) (fun d s => w'.KeptAt cfg d s)
      (fun _ since s => w'.NewSince cfg since s) := by
  have h := step_inv hs
  obtain ⟨⟨hrelay, _, hraw⟩, hlands, _⟩ := id hok
  have hcont := continues_step h
  -- what is due at a number that was due before was due before
  have hold : ∀ {d s} {p : PushRequest π × PacketInner}, w.DueAt cfg d s → p ∈ w'.due cfg d →
      p.1.seq = s → p ∈ w.due cfg d := by
    rintro d s p ⟨q, hq, rfl⟩ hp hseq
    exact due_unique h hraw hi hq hp hseq
  have hkeep : ∀ {d} {p : PushRequest π × PacketInner}, p ∈ w.due cfg d → w.Kept cfg d p →
      w'.Kept cfg d p := fun hp hk => kept_step hs hi hd.holds hok hp hk
  refine tracks_step h hrelay hd.tracks ?_ hpos ?_ (fun _ _ _ hn => hn.mono hcont) ?_ ?_ ?_
  · rintro d s hdue
    refine ⟨hd.positive d s hdue, ?_⟩
    obtain ⟨p, hp, rfl⟩ := hdue
    obtain ⟨⟨id, hacc⟩, hfrom⟩ := mem_due.mp hp
    have hget := hi.live _ hacc
    rw [(mem_dueFrom.mp hfrom).1.1] at hget
    have hlive := PacketStore.mem_live.mpr ⟨_, hget⟩
    exact ⟨hi.range _ hlive, hlive⟩
  · intro d s hdue hkept p hp hseq
    have hp' := hold hdue hp hseq
    exact hkeep hp' (hkept p hp' hseq)
  · rintro d s ⟨p, hp, rfl⟩
    rcases due_step h hraw hi hp with hp | ⟨id, hin, hacc, hfrom, hfree, _⟩
    · exact Or.inl ⟨p, hp, rfl⟩
    · obtain ⟨hcursor, hrunning⟩ := hlands _ hin hacc d (List.ne_nil_of_mem hfrom)
      refine Or.inr (Or.inr ⟨hcursor, fun rx hrx => (hrunning rx hrx).imp_right (fun hb => ⟨hb, ?_⟩)⟩)
      refine NewSince.mono hcont ⟨hd.begun d rx hrx, fun id req hmem hdialogue hseq => ?_⟩
      -- the number was free
      have hget := hi.live _ (mem_accepted.mpr (List.mem_of_mem_take hmem))
      rw [hdialogue, hseq, hfree] at hget
      cases hget
  · rintro hserver d s ⟨p, hp, rfl⟩
    rcases due_step h hraw hi hp with hp | ⟨_, _, _, _, hfree, hput⟩
    · exact Or.inl ⟨p, hp, rfl⟩
    · rw [hserver] at hput
      rw [hput, PacketStore.get_put_self] at hfree
      cases hfree
  · intro d rx hrx rx' hm now pkt queue batchEnd stop todo hpoint target own skipUntil counted hstep
      herrors
    refine ⟨fun hdue p hp hseq => ?_, fun s hlt hle hdue p hp hseq => ?_⟩
    · exact kept_packet hs hi hd.holds hok hrx hm hpoint hstep herrors (hold hdue hp hseq) hseq
    · have hp' := hold hdue hp hseq
      refine hkeep hp' ((harmless_packet hok hm hpoint).1 p hp' ?_)
      rw [hseq]
      exact hstep.announces hlt hle

theorem delivering_step (hs : step cfg w l = some w') (hok : w.LosslessStep cfg l)
    (hi : Honest cfg w) (hd : Delivering cfg w) : Delivering cfg w' := by
  have h := step_inv hs
  obtain ⟨⟨hrelay, _, hraw⟩, hlands, _⟩ := id hok
  have hcont := continues_step h
  have hlength : w.log.length ≤ w'.log.length := by
    obtain ⟨events, hlog⟩ := hcont
    rw [hlog, List.length_append]
    exact Nat.le_add_right _ _
  have hpos : ∀ d s, w'.DueAt cfg d s → 0 < s := by
    rintro d s ⟨p, hp, rfl⟩
    rcases due_step h hraw hi hp with hp | ⟨id, hin, hacc, hfrom, _, _⟩
    · exact hd.positive d _ ⟨p, hp, rfl⟩
    · exact Nat.zero_lt_of_lt (hlands _ hin hacc d (List.ne_nil_of_mem hfrom)).1
  -- a packet of before that was due and kept is due and kept
  have hkeep : ∀ {d id req inner}, (id, req) ∈ w.accepted → inner ∈ w'.dueFrom cfg d req →
      (inner ∈ w.dueFrom cfg d req → w.Kept cfg d (req, inner)) → w'.Kept cfg d (req, inner) := by
    intro d id req inner hacc hfrom hkept
    obtain ⟨d₀, hw⟩ := hi.written hacc
    have hfrom' := dueFrom_of_written (composing_step h hi.composing) hcont hw hfrom
    exact kept_step hs hi hd.holds hok (mem_due.mpr ⟨⟨id, hacc⟩, hfrom'⟩) (hkept hfrom')
  refine ⟨holds_step h hrelay hi hd.holds, hpos, ?_, ?_, tracks_due hs hok hi hd hpos, ?_⟩
  · intro d rx' hrx'
    rcases receiving_step h hrelay hrx' with hold | rfl | ⟨rx, hrx, hm⟩
    · exact Nat.le_trans (hd.begun d rx' hold) hlength
    · exact Nat.le_refl _
    · rw [hm.since]
      exact Nat.le_trans (hd.begun d rx hrx) hlength
  · intro d since errors hn
    obtain ⟨k, hlog⟩ := mem_notices.mp hn
    rcases notice_step h hlog with hold | horigin
    · exact Nat.le_trans (hd.ended d since errors (mem_notices.mpr ⟨k, hold⟩)) hlength
    · cases horigin with
      | outer _ _ _ hstep _ hwhat _ => exact absurd hwhat (OuterStep.not_received hstep _ _)
      | received hjob hrx hdone =>
          exact Nat.le_trans (hd.begun _ _ (mem_receiving.mpr ⟨_, hjob, rfl, hrx⟩)) hlength
  · intro d since errors hn id req hmem inner hfrom
    obtain ⟨k, hlog⟩ := mem_notices.mp hn
    rcases notice_step h hlog with hold | horigin
    · have hended := hd.ended d since errors (mem_notices.mpr ⟨k, hold⟩)
      rw [hcont.take hended] at hmem
      refine hkeep (mem_accepted.mpr (List.mem_of_mem_take hmem)) hfrom (fun hfrom' => ?_)
      exact hd.delivered d since errors (mem_notices.mpr ⟨k, hold⟩) id req hmem inner hfrom'
    · cases horigin with
      | outer _ _ _ hstep _ hwhat _ => exact absurd hwhat (OuterStep.not_received hstep _ _)
      | @received job rx hjob hrx hdone =>
          -- a completed `receive` has settled everything that is not new
          have hrunning : rx ∈ w.receiving job.dev := mem_receiving.mpr ⟨_, hjob, rfl, hrx⟩
          rw [hcont.take (hd.begun _ _ hrunning)] at hmem
          have hacc := mem_accepted.mpr (List.mem_of_mem_take hmem)
          refine hkeep hacc hfrom (fun hfrom' => ?_)
          have hp : (req, inner) ∈ w.due cfg job.dev := mem_due.mpr ⟨⟨id, hacc⟩, hfrom'⟩
          rcases (hd.tracks.running _ rx hrunning).done hdone ⟨_, hp, rfl⟩ with hkept | hnew
          · exact hkept _ hp rfl
          · exact absurd rfl (hnew.2 id req hmem (mem_dueFrom.mp hfrom').1.1)

theorem honest_reachable
    (hr : Lts.Reach (step cfg) (fun w l => w.LosslessStep cfg l) (init cfg) w) : Honest cfg w where
  composing := composing_reachable hr
  made := made_reachable (fun _ _ h => h.1.2.2) hr
  live := live_reachable (fun _ _ h => h.1.2.1) hr
  stored := stored_reachable hr
  range := range_reachable hr
  numbered := hr.invariant numbered_init (fun _ _ _ _ hi _ hs => numbered_step (step_inv hs) hi)

/-- **No message is lost**, in any run whose steps are lossless. -/
theorem lossless_reachable
    (hr : Lts.Reach (step cfg) (fun w l => w.LosslessStep cfg l) (init cfg) w) :
    w.Lossless cfg := by
  have hd : Delivering cfg w := hr.invariant delivering_init
    (fun _ _ _ hr hd hok hs => delivering_step hs hok (honest_reachable hr) hd)
  exact ⟨fun d p hp hle => hd.tracks.cursor d _ ⟨p, hp, rfl⟩ hle p hp rfl, hd.delivered⟩

/-- The `receive` of `received` keeps both messages. -/
theorem lossless_received :
    (Lts.execWhile (step Sample.setup) (fun w l => w.LosslessStep Sample.setup l)
      (init Sample.setup) received).isSome = true
    ∧ Lossless Sample.setup ((Lts.execWhile (step Sample.setup)
        (fun w l => w.LosslessStep Sample.setup l) (init Sample.setup) received).getD
          (init Sample.setup)) :=
  ⟨by decide, lossless_reachable (Lts.reach_getD (by decide))⟩

/-- Alice's second message is accepted between the two reads of Bob's map: his cursor is at its
number, and the message is neither stored nor counted. -/
theorem message_lost :
    ¬ ∀ w : World Sealed 3, Lts.Reach (step Sample.setup)
      (fun _ l => l.isRelay = false ∧ l.isRemoval = false ∧ l.isRaw = false)
      (init Sample.setup) w → w.Lossless Sample.setup := by
  intro h
  have hrun : (Lts.execWhile (step Sample.setup)
      (fun _ l => l.isRelay = false ∧ l.isRemoval = false ∧ l.isRaw = false) (init Sample.setup)
      betweenReads).isSome = true := by decide
  have hkept := (h _ (Lts.reach_getD hrun)).cursor 1
    (⟨"alice", "bob", 2, ⟨7, 0, ⟨"m2", 0, "alice", .text "m2", none⟩⟩, "alice"⟩,
      ⟨"m2", 0, "alice", .text "m2", none⟩) (by decide) (by decide)
  revert hkept
  decide

end World

end Paranoia
