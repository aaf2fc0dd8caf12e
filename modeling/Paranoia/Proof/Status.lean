import Paranoia.Session
import Paranoia.Proof.Steps
import Paranoia.Spec

/-!
# The status of outgoing messages

Every step of a call writes the status column at most once, and `Task.statusWrite` tells
from the state before the step what it writes: `localStep_writes`. Several of these writes
do not look at the status that is there. A run is steady when `receive` meets no own message
that was read, no transfer ends whose message was delivered or read, nothing is stored over an
own message that has come as far, and no receipt of the account itself selects one; in such a
run no status ever moves back, and what is read was confirmed by the other party.
-/

namespace Paranoia

variable {κ π : Type} {n : Nat}

namespace StatusWrite

/-- The message the write gives a status, where it names one. -/
def sets : StatusWrite → Option (MessageId × MessageStatus)
  | met id | stored id => some (id, .delivered)
  | saved id status | ended id status => some (id, status)
  | receipt _ _ => none

/-- What may have become of the rows by this write, or by none. Rows may also have gone. -/
def Leaves (c : Client κ) (st st' : LocalStore) : Option StatusWrite → Prop
  | none => ∀ m ∈ st'.messages, m ∈ st.messages
  | some (.receipt _ upToSeq) =>
      ∀ m ∈ st'.messages, m ∈ st.messages ∨ ∃ r ∈ st.messages,
        LocalStore.readUntil c.key upToSeq r = true ∧ m = { r with status := .read }
  | some write =>
      ∀ m ∈ st'.messages, m ∈ st.messages ∨ write.sets = some (m.id, m.status)

/-- What no write meets. An own message that is met, or the id a received packet is stored under,
is not that of an own message that was read; the transfer that ends, or the id a message to be
sent is stored under, not that of one that was delivered or read; and a receipt that is not the
other party's selects no own message. -/
def Steady (c : Client κ) (st : LocalStore) : StatusWrite → Prop
  | .met id | .stored id =>
      ∀ m ∈ st.messages.rows, m.id = id → m.sender = c.username → m.status ≠ .read
  | .saved id _ | .ended id _ => ∀ m ∈ st.messages.rows, m.id = id → m.sender = c.username →
      m.status ≠ .delivered ∧ m.status ≠ .read
  | .receipt sender upToSeq => sender = c.partner ∨ ∀ m ∈ st.messages.rows,
      LocalStore.readUntil c.key upToSeq m = true → m.sender ≠ c.username

instance (c : Client κ) (st : LocalStore) (write : StatusWrite) :
    Decidable (write.Steady c st) :=
  match write with
  | .met _ | .stored _ | .saved _ _ | .ended _ _ =>
      inferInstanceAs (Decidable (∀ _ ∈ _, _ → _ → _))
  | .receipt _ _ => inferInstanceAs (Decidable (_ ∨ ∀ _ ∈ _, _ → _))

variable {c : Client κ} {st st' : LocalStore}

theorem leaves_of_subset (h : ∀ m ∈ st'.messages, m ∈ st.messages)
    (write : Option StatusWrite) : Leaves c st st' write := by
  cases write with
  | none => exact h
  | some write => cases write <;> exact fun m hm => Or.inl (h m hm)

theorem leaves_of_eq (h : st'.messages = st.messages) (write : Option StatusWrite) :
    Leaves c st st' write :=
  leaves_of_subset (fun m hm => by rwa [h] at hm) write

theorem updateStatus_row {id : MessageId} {status : MessageStatus} {m : Message}
    (hm : m ∈ (st.updateStatus id status).messages) :
    m ∈ st.messages ∨ some (id, status) = some (m.id, m.status) := by
  obtain ⟨r, hr, rfl⟩ := LocalStore.mem_updateStatus.mp hm
  split
  · rename_i hid
    exact Or.inr (congrArg (fun i => some (i, status)) hid.symm)
  · exact Or.inl hr

theorem saveMessage_row {msg m : Message} (hm : m ∈ (st.saveMessage msg).messages) :
    m ∈ st.messages ∨ some (msg.id, msg.status) = some (m.id, m.status) := by
  rcases LocalStore.mem_saveMessage.mp hm with ⟨hm, _⟩ | rfl
  · exact Or.inl hm
  · exact Or.inr rfl

theorem leaves_markReadUntil (sender : String) (upToSeq : Nat) :
    Leaves c st (st.markReadUntil c.key upToSeq) (some (.receipt sender upToSeq)) := by
  intro m hm
  obtain ⟨r, hr, rfl⟩ := LocalStore.mem_markReadUntil.mp hm
  split
  · rename_i hsel
    exact Or.inr ⟨r, hr, hsel, rfl⟩
  · exact Or.inl hr

/-- What was written: a status that the write names, or that a receipt selects. -/
theorem Leaves.row {write : StatusWrite} (h : Leaves c st st' (some write)) {m : Message}
    (hm : m ∈ st'.messages) :
    m ∈ st.messages ∨ write.sets = some (m.id, m.status) ∨ ∃ sender upToSeq, ∃ r ∈ st.messages,
      write = .receipt sender upToSeq ∧ LocalStore.readUntil c.key upToSeq r = true ∧
        m = { r with status := .read } := by
  cases write with
  | receipt sender upToSeq =>
      rcases h m hm with hold | ⟨r, hr, hsel, hm⟩
      · exact Or.inl hold
      · exact Or.inr (Or.inr ⟨sender, upToSeq, r, hr, rfl, hsel, hm⟩)
  | _ => exact (h m hm).imp_right Or.inl

/-- A status a steady write names is not behind the one that is there. -/
theorem Steady.rank_le {write : StatusWrite} (h : write.Steady c st) {m : Message}
    (hm : m ∈ st.messages) (hsender : m.sender = c.username) {status : MessageStatus}
    (hsets : write.sets = some (m.id, status)) : m.status.rank ≤ status.rank := by
  have hunread : m.status ≠ .read → m.status.rank ≤ MessageStatus.delivered.rank := by
    cases m.status <;> decide
  have hpending : m.status ≠ .delivered ∧ m.status ≠ .read → m.status.rank ≤ status.rank := by
    cases m.status <;> simp [MessageStatus.rank]
  cases write with
  | met id | stored id =>
      cases hsets
      exact hunread (h m hm rfl hsender)
  | saved id status | ended id status =>
      cases hsets
      exact hpending (h m hm rfl hsender)
  | receipt sender upToSeq => cases hsets

end StatusWrite

open StatusWrite

/-! ## What a call writes -/

/-- A packet that is not one of the account's own messages writes what `packetWrite` says. -/
theorem processIncoming_writes (c : Client κ) (now : Int) (st : LocalStore) (inner : PacketInner)
    (seq : Nat) (hown : st.getMessageBySeq c.key seq = none ∨ inner.sender ≠ c.username) :
    Leaves c st (c.processIncoming now st inner seq).1 (c.packetWrite now st inner seq) := by
  unfold Client.processIncoming Client.packetWrite
  cases hat : st.getMessageBySeq c.key seq with
  | some id =>
      have hsender : inner.sender ≠ c.username := by
        rcases hown with h | h
        · rw [hat] at h
          cases h
        · exact h
      dsimp only [Option.isSome_some]
      rw [if_pos rfl, if_neg hsender]
      exact fun m hm => hm
  | none =>
      dsimp only [Option.isSome_none]
      rw [if_neg Bool.false_ne_true]
      cases inner.content with
      | readReceipt upToSeq => exact leaves_markReadUntil _ _
      | delete targetId => exact fun m hm => hm
      | fileHeader transferId kind filename mimeType totalSize chunks groupId =>
          dsimp only
          cases checkedAdd seq chunks with
          | none => exact leaves_of_eq rfl _
          | some bodyToSeq => exact fun m hm => saveMessage_row hm
      | fileChunk transferId index total filename mimeType totalSize data =>
          dsimp only
          by_cases hthere : (st.getMessageById c.key transferId).isSome = true
          · rw [if_pos hthere]
            exact leaves_of_eq rfl _
          · rw [if_neg hthere]
            have hnone : (st.getMessageById c.key transferId).isNone = true := by
              simpa using hthere
            rcases c.bufferChunk_cases st seq
                (c.chunkRow now inner transferId index total filename mimeType totalSize data) with
              ⟨_, hst⟩ | ⟨hcompletes, file, _, hst⟩
            · refine leaves_of_eq ?_ _
              rw [hst]
              simp
            · rw [hnone, hcompletes, Bool.and_self, if_pos rfl, hst]
              intro m hm
              exact (saveMessage_row hm).imp_left (fun h => by simpa using h)
      | _ => exact fun m hm => saveMessage_row hm

/-- The steps of a running `receive` write what `statusWrite` says. -/
theorem receive_writes [Aead κ π] {c : Client κ} {now : Int} {st st' : LocalStore} {rx : Rx π}
    {outer : Outer π} {res : Except Fault (Receive π)}
    (h : rx.run.localStep c now st = some (st', res)) :
    Leaves c st st' (Task.statusWrite c now st ⟨some rx, outer⟩) := by
  unfold Task.statusWrite
  unfold Receive.localStep at h
  cases hp : rx.run.point with
  | packet pkt queue batchEnd stop todo =>
      simp only [hp] at h
      have h' := Option.some.inj h
      unfold Receive.onPacket at h'
      cases hdec : c.decryptPacket pkt.seq pkt.payload with
      | none =>
          simp only [hdec] at h'
          cases h'
          exact leaves_of_eq rfl _
      | some inner =>
          simp only [hdec] at h'
          cases hto : Receive.advanceTo pkt.seq inner.content with
          | none =>
              simp only [hto] at h'
              cases h'
              exact leaves_of_eq rfl _
          | some place =>
              simp only [hto] at h'
              simp only [hp, hdec, hto, Option.bind_some]
              by_cases hsender : inner.sender = c.username
              · rw [if_pos hsender] at h'
                cases hid : st.getMessageBySeq c.key pkt.seq with
                | some id =>
                    simp only [hid] at h'
                    cases h'
                    unfold Client.packetWrite
                    simp only [hid, if_pos hsender]
                    exact fun m hm => updateStatus_row hm
                | none =>
                    have hw := processIncoming_writes c now st inner pkt.seq (Or.inl hid)
                    simp only [hid] at h'
                    split at h' <;> rename_i heq <;> rw [heq] at hw <;> cases h' <;> exact hw
              · have hw := processIncoming_writes c now st inner pkt.seq (Or.inr hsender)
                rw [if_neg hsender] at h'
                dsimp only at h'
                split at h' <;> rename_i heq <;> rw [heq] at hw <;> cases h' <;> exact hw
  | delete tombstones =>
      simp only [hp] at h
      cases h
      exact leaves_of_subset (fun m hm => (LocalStore.mem_deleteMessagesBySeqs.mp hm).1) _
  | bump =>
      simp only [hp] at h
      split at h <;> (cases h; exact leaves_of_eq (by simp) _)
  | sweep =>
      simp only [hp] at h
      split at h <;> (cases h; exact leaves_of_eq rfl _)
  | load =>
      simp only [hp] at h
      cases h
      exact leaves_of_eq rfl _
  | skip batchEnd stop todo =>
      simp only [hp] at h
      cases h
      exact leaves_of_eq (by simp) _
  | advance target own queue batchEnd stop todo =>
      simp only [hp] at h
      cases h
      exact leaves_of_eq (by simp) _
  | _ =>
      simp only [hp] at h
      cases h

/-- **A step of a call writes what `statusWrite` says**, and nothing else to the status column. -/
theorem localStep_writes [Aead κ π] {c : Client κ} {env : Env} {st : LocalStore} {task : Task π}
    {out : Local π} (h : task.localStep c env st = some out) :
    Leaves c st out.store (task.statusWrite c env.now st) := by
  obtain ⟨rx, outer⟩ := task
  unfold Task.localStep at h
  cases rx with
  | some rx =>
      unfold Task.receiveStep at h
      dsimp only at h
      split at h
      · cases h
        exact leaves_of_eq rfl _
      · split at h
        · cases h
        · rename_i heq
          cases h
          exact receive_writes heq
        · rename_i heq
          cases h
          exact receive_writes heq
  | none =>
      have hstep := outerStep_inv h
      unfold Task.statusWrite
      cases hstep with
      | ends hst => exact leaves_of_eq hst.messages _
      | compose hst => exact leaves_of_eq hst.messages _
      | reserve hst => exact leaves_of_eq hst.messages _
      | save => exact fun m hm => saveMessage_row hm
      | saveSending => exact fun m hm => saveMessage_row hm
      | markSent => exact fun m hm => updateStatus_row hm
      | giveUp => exact fun m hm => updateStatus_row hm
      | _ =>
          refine leaves_of_eq ?_ _
          rfl

/-- No call sets a message to read except by a receipt. -/
theorem statusWrite_ne_read [Aead κ π] {c : Client κ} {now : Int} {st : LocalStore} {task : Task π}
    {write : StatusWrite} (h : task.statusWrite c now st = some write) {id : MessageId}
    {status : MessageStatus} (hsets : write.sets = some (id, status)) : status ≠ .read := by
  unfold Task.statusWrite at h
  split at h
  · split at h
    · obtain ⟨inner, _, h⟩ := Option.bind_eq_some_iff.mp h
      obtain ⟨_, _, h⟩ := Option.bind_eq_some_iff.mp h
      unfold Client.packetWrite at h
      split at h
      · split at h <;> cases h
        cases hsets
        decide
      · split at h
        · cases h
          cases hsets
        · cases h
        · cases h
          cases hsets
          decide
        · split at h <;> cases h
          cases hsets
          decide
        · cases h
          cases hsets
          decide
    · cases h
  · split at h <;> cases h <;> cases hsets <;> decide

namespace World

variable [Aead κ π] {cfg : Setup κ n} {w w' : World π n} {l : Paranoia.Label π n}

theorem onRx_store {id : Nat} {f : Job π n → Receive π → Option (Receive π × List (Notice π))}
    (h : w.onRx id f = some w') : w'.store = w.store := by
  obtain ⟨job, rx, run, notices, _, _, _, _, rfl⟩ := onRx_inv h
  rw [moved, setStore_self]
  exact setTask_store _ _

theorem onOuter_store {id : Nat} {f : Job π n → Outer π → Option (Option (Task π))}
    (h : w.onOuter id f = some w') : w'.store = w.store := by
  obtain ⟨job, task, _, _, _, _, _, rfl⟩ := onOuter_inv h
  exact setTask_store _ _

/-- Only the local steps of calls write to a database, each to that of its own device. -/
theorem step_store (h : step cfg w l = some w') :
    w'.store = w.store ∨ ∃ id env job out, l = .localStep id env ∧ w.job id = some job ∧
      job.task.localStep (cfg.device job.dev) env (w.store job.dev) = some out ∧
      w'.store = (w.setStore job.dev out.store).store := by
  cases l with
  | localStep id env =>
      simp only [step, stepLocal] at h
      cases hjob : w.job id with
      | none => simp [hjob] at h
      | some job =>
          simp only [hjob] at h
          cases hout : job.task.localStep (cfg.device job.dev) env (w.store job.dev) with
          | none => simp [hout] at h
          | some out =>
              simp only [hout] at h
              split at h
              · cases h
                exact Or.inr ⟨id, env, job, out, rfl, hjob, hout, by simp [issue, note]⟩
              · cases h
  | start dev call =>
      simp only [step] at h
      split at h <;> cases h
      exact Or.inl rfl
  | notified id fresh =>
      simp only [step] at h
      exact Or.inl (onOuter_store h)
  | scan id =>
      simp only [step, stepScan] at h
      exact Or.inl (onRx_store h)
  | lastSeq id =>
      simp only [step, stepLastSeq] at h
      exact Or.inl (onRx_store h)
  | pull id =>
      simp only [step, stepPull] at h
      exact Or.inl (onRx_store h)
  | existing id =>
      simp only [step, stepExisting] at h
      exact Or.inl (onOuter_store h)
  | push id =>
      simp only [step, stepPush] at h
      split at h
      · cases h
      · split at h
        · exact Or.inl ((onOuter_store h).trans rfl)
        · cases h
  | timeout id retry =>
      simp only [step, stepTimeout] at h
      split at h
      · cases h
      · split at h
        · exact Or.inl ((onOuter_store h).trans rfl)
        · exact Or.inl (onOuter_store h)
  | arrive i =>
      simp only [step] at h
      split at h <;> cases h
      exact Or.inl rfl
  | raw req =>
      cases h
      exact Or.inl rfl
  | relayMap id m =>
      simp only [step] at h
      exact Or.inl (onRx_store h)
  | relayPull id packets =>
      simp only [step] at h
      exact Or.inl (onRx_store h)
  | relayExisting id m =>
      simp only [step] at h
      exact Or.inl (onOuter_store h)
  | kill id =>
      simp only [step] at h
      split at h <;> cases h
      exact Or.inl (setTask_store _ _)
  | remove fromSeq toSeq =>
      simp only [step] at h
      split at h <;> cases h
      exact Or.inl rfl

end World

/-! ## Runs -/

namespace Session

/-- No outgoing message ever went back, and those that were read were confirmed. -/
structure Forward (s : Session π n) : Prop where
  monotone : ∀ ch ∈ s.changes, ch.before.rank ≤ ch.after.rank
  confirmed : ∀ ch ∈ s.changes, ch.after = .read → ∃ seq upToSeq,
    ch.serverSeq = some seq ∧ (ch.dev, upToSeq) ∈ s.confirmed ∧ toI64 seq ≤ toI64 upToSeq

theorem forward_init (cfg : Setup κ n) : (init cfg : Session π n).Forward where
  monotone _ h := absurd h List.not_mem_nil
  confirmed _ h := absurd h List.not_mem_nil

/-- A change is one of a row of the account, told by its id. -/
theorem mem_statusChanges {cfg : Setup κ n} {w w' : World π n} {ch : StatusChange n}
    (h : ch ∈ statusChanges cfg w w') :
    ∃ m ∈ (w.store ch.dev).messages, ∃ m' ∈ (w'.store ch.dev).messages,
      m.sender = (cfg.device ch.dev).username ∧ m'.id = m.id ∧ m'.status ≠ m.status ∧
      ch = ⟨ch.dev, m.id, m'.serverSeq, m.status, m'.status⟩ := by
  obtain ⟨d, _, h⟩ := List.mem_flatMap.mp h
  obtain ⟨m, hm, h⟩ := List.mem_flatMap.mp h
  split at h
  · rename_i hsender
    obtain ⟨m', hm', rfl⟩ := List.mem_map.mp h
    obtain ⟨hm', hsel⟩ := List.mem_filter.mp hm'
    simp only [Bool.and_eq_true, decide_eq_true_eq] at hsel
    exact ⟨m, hm, m', hm', hsender, hsel.1, by simpa using hsel.2, rfl⟩
  · exact absurd h List.not_mem_nil

/-- A row that is still there has not changed. -/
theorem no_change {st : LocalStore} {m m' : Message} (hm : m ∈ st.messages)
    (hm' : m' ∈ st.messages) (hid : m'.id = m.id) (hne : m'.status ≠ m.status) : False :=
  hne (congrArg Message.status (Table.eq_of_key hm' hm hid))

section Run

variable [Aead κ π] (cfg : Setup κ n) {s s' : Session π n} {l : Label π n}

/-- The write to the status column that a step makes, if it makes one, is steady. -/
def SteadyStep (s : Session π n) : Label π n → Prop
  | .world l =>
      match pendingWrite cfg s.world l with
      | some (d, write) => write.Steady (cfg.device d) (s.world.store d)
      | none => True
  | _ => True

instance (s : Session π n) (l : Label π n) : Decidable (s.SteadyStep cfg l) := by
  unfold SteadyStep
  split
  · split <;> infer_instance
  · infer_instance

variable {cfg}

/-- A steady step of a call moves statuses forward, to read only by a receipt heard from the other
party. -/
theorem forward_write {w w' : World π n} {wl : Paranoia.Label π n}
    (hok : ∀ d write, pendingWrite cfg w wl = some (d, write) →
      write.Steady (cfg.device d) (w.store d))
    (h : World.step cfg w wl = some w') {ch : StatusChange n} (hch : ch ∈ statusChanges cfg w w') :
    ch.before.rank ≤ ch.after.rank ∧ (ch.after = .read → ∃ seq upToSeq,
      ch.serverSeq = some seq ∧ (ch.dev, upToSeq) ∈ heard cfg w wl ∧
        toI64 seq ≤ toI64 upToSeq) := by
  obtain ⟨m, hm, m', hm', hsender, hid, hne, hch⟩ := mem_statusChanges hch
  rcases World.step_store h with hst | ⟨id, env, job, out, rfl, hjob, hout, hst⟩
  · rw [hst] at hm'
    exact (no_change hm hm' hid hne).elim
  · by_cases hd : ch.dev = job.dev
    · rw [hst, hd, World.setStore_store_self] at hm'
      rw [hd] at hm hsender
      have hleaves := localStep_writes hout
      have hpending : ∀ write, job.task.statusWrite (cfg.device job.dev) env.now
          (w.store job.dev) = some write →
          pendingWrite cfg w (.localStep id env) = some (job.dev, write) := by
        intro write hw
        simp only [pendingWrite, hjob, Option.bind_some, hw, Option.map_some]
      cases hw : job.task.statusWrite (cfg.device job.dev) env.now (w.store job.dev) with
      | none =>
          rw [hw] at hleaves
          exact (no_change hm (hleaves m' hm') hid hne).elim
      | some write =>
          have hsteady := hok job.dev write (hpending write hw)
          rw [hw] at hleaves
          rcases hleaves.row hm' with hold | hsets | ⟨sender, upToSeq, r, hr, rfl, hsel, rfl⟩
          · exact (no_change hm hold hid hne).elim
          · rw [hid] at hsets
            rw [hch]
            exact ⟨hsteady.rank_le hm hsender hsets,
              fun hread => absurd hread (statusWrite_ne_read hw hsets)⟩
          · obtain rfl : r = m := Table.eq_of_key hr hm hid
            obtain ⟨_, ⟨seq, hseq, hle⟩, _⟩ := LocalStore.readUntil_eq_true.mp hsel
            rw [hch]
            refine ⟨?_, fun _ => ⟨seq, upToSeq, hseq, ?_, hle⟩⟩
            · show r.status.rank ≤ MessageStatus.read.rank
              cases r.status <;> decide
            · rcases hsteady with hpartner | hnone
              · unfold heard
                rw [hpending _ hw]
                dsimp only
                rw [if_pos hpartner, hd]
                exact List.mem_singleton_self _
              · exact absurd hsender (hnone r hr hsel)
    · rw [hst, World.setStore_store_of_ne hd] at hm'
      exact (no_change hm hm' hid hne).elim

/-- **A steady step keeps every status from moving back.** -/
theorem forward_step (h : s.Forward) (hok : s.SteadyStep cfg l) (hs : step cfg s l = some s') :
    s'.Forward := by
  cases l with
  | world wl =>
      simp only [step] at hs
      split at hs
      · cases hs
      · rename_i w' hw
        cases hs
        have hpending : ∀ d write, pendingWrite cfg s.world wl = some (d, write) →
            write.Steady (cfg.device d) (s.world.store d) := by
          intro d write hp
          simpa only [SteadyStep, hp] using hok
        refine ⟨fun ch hch => ?_, fun ch hch hread => ?_⟩
        · rcases List.mem_append.mp hch with hch | hch
          · exact h.monotone ch hch
          · exact (forward_write hpending hw hch).1
        · rcases List.mem_append.mp hch with hch | hch
          · obtain ⟨seq, upToSeq, hseq, hmem, hle⟩ := h.confirmed ch hch hread
            exact ⟨seq, upToSeq, hseq, List.mem_append_left _ hmem, hle⟩
          · obtain ⟨seq, upToSeq, hseq, hmem, hle⟩ := (forward_write hpending hw hch).2 hread
            exact ⟨seq, upToSeq, hseq, List.mem_append_right _ hmem, hle⟩
  | ask dev =>
      simp only [step] at hs
      split at hs <;> cases hs
      exact ⟨h.monotone, h.confirmed⟩
  | arrived i partnerLastSeq =>
      simp only [step] at hs
      split at hs
      · cases hs
      · cases hs
        exact ⟨h.monotone, h.confirmed⟩
      · rename_i dev upToSeq hask
        cases hs
        have hnew : ∀ ch ∈ statusChanges cfg s.world (s.world.setStore dev
            ((s.world.store dev).markOutgoingReadUntil (cfg.device dev).key
              (cfg.device dev).username upToSeq)),
            ch.dev = dev ∧ ch.after = .read ∧
              ∃ seq, ch.serverSeq = some seq ∧ toI64 seq ≤ toI64 upToSeq := by
          intro ch hch
          obtain ⟨m, hm, m', hm', hsender, hid, hne, hch⟩ := mem_statusChanges hch
          by_cases hd : ch.dev = dev
          · rw [hd, World.setStore_store_self] at hm'
            obtain ⟨r, hr, rfl⟩ := LocalStore.mem_markOutgoingReadUntil.mp hm'
            rw [hd] at hm
            split at hid
            · rename_i hsel
              rw [if_pos hsel] at hch
              simp only [LocalStore.outgoingReadUntil, Bool.and_eq_true] at hsel
              obtain ⟨_, ⟨seq, hseq, hle⟩, _⟩ := LocalStore.readUntil_eq_true.mp hsel.2
              rw [hch]
              exact ⟨hd, rfl, seq, hseq, hle⟩
            · rename_i hsel
              rw [if_neg hsel] at hne
              exact (no_change hm hr hid hne).elim
          · rw [World.setStore_store_of_ne hd] at hm'
            exact (no_change hm hm' hid hne).elim
        refine ⟨fun ch hch => ?_, fun ch hch hread => ?_⟩
        · rcases List.mem_append.mp hch with hch | hch
          · exact h.monotone ch hch
          · rw [(hnew ch hch).2.1]
            cases ch.before <;> decide
        · rcases List.mem_append.mp hch with hch | hch
          · obtain ⟨seq, bound, hseq, hmem, hle⟩ := h.confirmed ch hch hread
            exact ⟨seq, bound, hseq, List.mem_append_left _ hmem, hle⟩
          · obtain ⟨hd, _, seq, hseq, hle⟩ := hnew ch hch
            refine ⟨seq, upToSeq, hseq, List.mem_append_right _ ?_, hle⟩
            rw [hd]
            exact List.mem_singleton_self _

/-- **Statuses only move forward** in every steady run, and to read only as far as the other party
confirmed. -/
theorem forward_reachable (hr : Lts.Reach (step cfg) (SteadyStep cfg) (init cfg) s) : s.Forward :=
  hr.invariant (forward_init cfg) (fun _ _ _ _ h hok hs => forward_step h hok hs)

end Run

/-- Alice's message `m1` is on the server, and Bob has pulled it. -/
def fetched : List (Paranoia.Label Sealed 3) :=
  Sample.sends 0 0 "m1" ++ [.start 1 .receive, .scan 1, .lastSeq 1] ++ Sample.steps 1 1 ++
    [.pull 1]

/-- Alice's device receives, as call `2`, and meets its own message. -/
def ownSeen : List (Paranoia.Label Sealed 3) :=
  [.start 0 .receive, .scan 2, .lastSeq 2] ++ Sample.steps 2 1 ++ [.pull 2] ++ Sample.steps 2 1

/-- Alice's device asks, and hears that Bob is at `1`. -/
def asked : List (Label Sealed 3) := [.ask 0, .arrived 0 (some 1)]

/-- First delivered, then read. -/
theorem forward_asked :
    (Lts.execWhile (step Sample.setup) (SteadyStep Sample.setup) (init Sample.setup)
      ((fetched ++ ownSeen).map .world ++ asked)).isSome = true
    ∧ ((Lts.execWhile (step Sample.setup) (SteadyStep Sample.setup) (init Sample.setup)
      ((fetched ++ ownSeen).map .world ++ asked)).getD (init Sample.setup)).Forward :=
  ⟨by decide, forward_reachable (Lts.reach_getD (by decide))⟩

/-- Read first, and back to delivered when the device meets its own message. -/
theorem back_to_delivered :
    ¬ ∀ s : Session Sealed 3, Lts.Reach (step Sample.setup) (fun _ _ => True)
      (init Sample.setup) s → s.Forward := by
  intro h
  have hrun : (Lts.execWhile (step Sample.setup) (fun _ _ => True) (init Sample.setup)
      (fetched.map .world ++ asked ++ ownSeen.map .world)).isSome = true := by decide
  have hle := (h _ (Lts.reach_getD hrun)).monotone
    ⟨0, "m1", some 1, .read, .delivered⟩ (by decide)
  revert hle
  decide

end Session

end Paranoia
