import Paranoia.Client.Inbox
import Paranoia.Proof.Delivery

/-!
# Received messages reach the application

`receive` returns what it has stored, but only from its end: a call that fails on the way has moved
the cursor past messages that nobody is told of. And `send` and the uploads run a `receive` of their
own and drop what it returns (`message_swallowed`). Where these have nothing new to receive, and a
`receive` fails only while it has nothing, every message and every packet that did not decrypt is in
the result of some call (`received_told`).
-/

namespace Paranoia

/-- There was a message with this id at this place. -/
def LocalStore.Had (st : LocalStore) (m : Message) : Prop :=
  ∃ old ∈ st.messages, old.id = m.id ∧ old.serverSeq = m.serverSeq

theorem mem_newMessages {st st' : LocalStore} {m : Message} :
    m ∈ newMessages st st' ↔ m ∈ st'.messages ∧ ¬ st.Had m := by
  unfold newMessages LocalStore.Had
  rw [List.mem_filter]
  refine and_congr Iff.rfl ?_
  simp only [List.all_eq_true, decide_eq_true_eq, not_exists, not_and]
  rfl

/-! ## One packet -/

section Packet

variable {κ : Type} {c : Client κ} {now : Int} {st st' : LocalStore} {inner : PacketInner} {seq : Nat}
  {m : Message}

theorem LocalStore.Had.of_mem (h : m ∈ st.messages) : st.Had m := ⟨m, h, rfl, rfl⟩

theorem had_of_updateStatus {id : MessageId} {status : MessageStatus}
    (h : m ∈ (st.updateStatus id status).messages) : st.Had m := by
  obtain ⟨old, hold, rfl⟩ := LocalStore.mem_updateStatus.mp h
  refine ⟨old, hold, ?_, ?_⟩ <;> split <;> rfl

theorem had_of_markReadUntil {dialogue : DialogueKey} {bound : Nat}
    (h : m ∈ (st.markReadUntil dialogue bound).messages) : st.Had m := by
  obtain ⟨old, hold, rfl⟩ := LocalStore.mem_markReadUntil.mp h
  refine ⟨old, hold, ?_, ?_⟩ <;> split <;> rfl

theorem had_or_eq_of_saveMessage {msg : Message} (h : m ∈ (st.saveMessage msg).messages) :
    st.Had m ∨ m = msg :=
  (LocalStore.mem_saveMessage.mp h).imp_left fun hm => .of_mem hm.1

/-- The packet brings nothing of the other party that is not there yet. -/
def SettlesPacket (c : Client κ) (now : Int) (st : LocalStore) (inner : PacketInner) (seq : Nat) :
    Prop :=
  (st.getMessageBySeq c.key seq).isSome = true ∨
    match inner.content with
    | .readReceipt _ => True
    | .delete _ => True
    | .fileChunk transferId index total filename mimeType totalSize data =>
        (st.getMessageById c.key transferId).isSome = true
          ∨ st.completes c.allocLimit (c.chunkRow now inner transferId index total filename mimeType
            totalSize data) = false
    | _ => inner.sender = c.username

instance : Decidable (SettlesPacket c now st inner seq) := by
  unfold SettlesPacket
  refine @instDecidableOr _ _ _ ?_
  exact match inner.content with
    | .text .. | .textReply .. | .file .. | .image .. | .voice .. | .video .. | .photoGroup ..
    | .fileHeader .. | .fileChunk .. | .readReceipt .. | .delete .. | .reaction .. =>
        by infer_instance

/-- What was put into the database is returned, and what was there is kept at its place. -/
structure Processed (c : Client κ) (now : Int) (st : LocalStore) (inner : PacketInner) (seq : Nat)
    (st' : LocalStore) (result : Except Fault (Option Message)) : Prop where
  told : ∀ m ∈ st'.messages, st.Had m ∨ result = .ok (some m)
  settled : SettlesPacket c now st inner seq → ∀ m ∈ st'.messages, st.Had m ∨ m.sender = c.username

/-- A message that was made of the packet is saved. -/
theorem Processed.saved {msg : Message}
    (hsender : SettlesPacket c now st inner seq → msg.sender = c.username) :
    Processed c now st inner seq (st.saveMessage msg) (.ok (some msg)) :=
  ⟨fun _ hm => (had_or_eq_of_saveMessage hm).imp_right fun h => by rw [h],
    fun hs _ hm => (had_or_eq_of_saveMessage hm).imp_right fun h => by rw [h, hsender hs]⟩

theorem Processed.same {result : Except Fault (Option Message)}
    (h : ∀ m ∈ st'.messages, st.Had m) : Processed c now st inner seq st' result :=
  ⟨fun m hm => .inl (h m hm), fun _ m hm => .inl (h m hm)⟩

theorem processed_bufferChunk {transferId filename mimeType : String}
    {index total totalSize : Nat} {data : List UInt8}
    (hcontent : inner.content
      = .fileChunk transferId index total filename mimeType totalSize data)
    (hfresh : ¬ (st.getMessageBySeq c.key seq).isSome = true)
    (hnone : ¬ (st.getMessageById c.key transferId).isSome = true) :
    Processed c now st inner seq
      (c.bufferChunk st seq
        (c.chunkRow now inner transferId index total filename mimeType totalSize data)).1
      (c.bufferChunk st seq
        (c.chunkRow now inner transferId index total filename mimeType totalSize data)).2 := by
  rcases c.bufferChunk_cases st seq
    (c.chunkRow now inner transferId index total filename mimeType totalSize data) with
    ⟨-, hstore⟩ | ⟨hcompletes, file, -, heq⟩
  · refine .same fun m hm => ?_
    rw [hstore, LocalStore.tryAssembleChunks_messages, LocalStore.saveChunk_messages] at hm
    exact .of_mem hm
  · rw [heq]
    have hold : ∀ m, m ∈ ((st.saveChunk (c.chunkRow now inner transferId index total filename
        mimeType totalSize data)).tryAssembleChunks c.allocLimit
        (c.chunkRow now inner transferId index total filename mimeType totalSize data).transferId
        (c.chunkRow now inner transferId index total filename mimeType totalSize data).dialogue
          ).1.messages → st.Had m := by
      intro m hm
      rw [LocalStore.tryAssembleChunks_messages, LocalStore.saveChunk_messages] at hm
      exact .of_mem hm
    refine ⟨fun m hm => ?_, fun hs => ?_⟩
    · rcases LocalStore.mem_saveMessage.mp hm with hm | rfl
      · exact .inl (hold m hm.1)
      · exact .inr rfl
    · unfold SettlesPacket at hs
      rw [hcontent] at hs
      rcases hs with hs | hs | hs
      · exact absurd hs hfresh
      · exact absurd hs hnone
      · rw [hcompletes] at hs
        cases hs

variable (c now st inner seq) in
theorem processed : Processed c now st inner seq (c.processIncoming now st inner seq).1
    (c.processIncoming now st inner seq).2 := by
  unfold Client.processIncoming
  by_cases hseen : (st.getMessageBySeq c.key seq).isSome = true
  · rw [if_pos hseen]
    exact .same fun m hm => .of_mem hm
  · rw [if_neg hseen]
    cases hcontent : inner.content with
    | readReceipt upToSeq => exact .same fun m hm => had_of_markReadUntil hm
    | delete targetId => exact .same fun m hm => .of_mem hm
    | fileHeader transferId kind filename mimeType totalSize chunks groupId =>
        dsimp only
        split
        · exact .same fun m hm => .of_mem hm
        · refine .saved fun hs => ?_
          unfold SettlesPacket at hs
          rw [hcontent] at hs
          exact hs.resolve_left hseen
    | fileChunk transferId index total filename mimeType totalSize data =>
        dsimp only
        split
        · exact .same fun m hm => .of_mem hm
        · rename_i hnone
          exact processed_bufferChunk hcontent hseen hnone
    | _ =>
        refine .saved fun hs => ?_
        unfold SettlesPacket at hs
        rw [hcontent] at hs
        exact hs.resolve_left hseen

end Packet

/-! ## One step of a receive -/

namespace Receive

variable {π : Type} {r : Receive π}

@[simp] theorem messages_nextRun (todo : List (Nat × Nat)) :
    (r.nextRun todo).messages = r.messages := by
  induction todo with
  | nil => rfl
  | cons run todo ih =>
      rw [nextRun]
      split
      · exact ih
      · split
        · rfl
        · exact ih

@[simp] theorem messages_nextBatch (seq stop : Nat) (todo : List (Nat × Nat)) :
    (r.nextBatch seq stop todo).messages = r.messages := by
  unfold nextBatch
  split
  · rfl
  · exact messages_nextRun todo

@[simp] theorem messages_nextPacket (queue : List (RawPacket π)) (batchEnd stop : Nat)
    (todo : List (Nat × Nat)) :
    (r.nextPacket queue batchEnd stop todo).messages = r.messages := by
  cases queue with
  | nil => exact messages_nextBatch _ _ _
  | cons pkt queue => rfl

@[simp] theorem messages_onPull (packets : List (RawPacket π)) (seq stop : Nat)
    (todo : List (Nat × Nat)) : (r.onPull packets seq stop todo).messages = r.messages := by
  unfold onPull
  split <;> rfl

@[simp] theorem messages_onMap (m : MapResult) : (r.onMap m).messages = r.messages := by
  unfold onMap
  dsimp only
  split <;> rfl

end Receive

section Step

variable {κ π : Type} [Aead κ π] {c : Client κ} {now : Int} {st st' : LocalStore}
  {r run : Receive π}

/-- The packet that is next brings nothing of the other party that is not there yet. -/
def Receive.NothingNew (c : Client κ) (now : Int) (st : LocalStore) (r : Receive π) : Prop :=
  match r.point with
  | .packet pkt _ _ _ _ =>
      match c.decryptPacket pkt.seq pkt.payload with
      | some inner => SettlesPacket c now st inner pkt.seq
      | none => False
  | _ => True

instance : Decidable (r.NothingNew c now st) := by
  unfold Receive.NothingNew
  exact match r.point with
    | .packet pkt .. => by
        dsimp only
        exact match c.decryptPacket pkt.seq pkt.payload with
          | some _ | none => by infer_instance
    | .map .. | .scanned .. | .load | .pull .. | .skip .. | .advance .. | .bump | .sweep
    | .delete .. | .done => by infer_instance

/-- The number of the packet that is next, if it cannot be decrypted. -/
def Receive.unreadable (c : Client κ) (r : Receive π) : List Nat :=
  Inbox.undecryptable c ⟨some ⟨0, r⟩, .receive⟩

/-- What a step of `receive` does to the database and to its result. -/
structure Told (c : Client κ) (now : Int) (st : LocalStore) (r : Receive π) (st' : LocalStore)
    (run : Receive π) : Prop where
  kept : ∀ m ∈ r.messages, m ∈ run.messages
  counted : ∀ q ∈ r.decryptErrors, q ∈ run.decryptErrors
  told : ∀ m ∈ newMessages st st', m ∈ run.messages
  unreadable : ∀ q ∈ r.unreadable c, q ∈ run.decryptErrors
  settled : r.NothingNew c now st → (∀ m ∈ newMessages st st', m.sender = c.username)
    ∧ r.unreadable c = []

theorem newMessages_of_had (h : ∀ m ∈ st'.messages, st.Had m) : newMessages st st' = [] := by
  refine List.eq_nil_iff_forall_not_mem.mpr fun m hm => ?_
  obtain ⟨hmem, hnot⟩ := mem_newMessages.mp hm
  exact hnot (h m hmem)

/-- A step that processes no packet. -/
theorem Told.aside (hst : ∀ m ∈ st'.messages, st.Had m)
    (hmessages : ∀ m ∈ r.messages, m ∈ run.messages)
    (herrors : run.decryptErrors = r.decryptErrors) (hpoint : r.unreadable c = []) :
    Told c now st r st' run := by
  refine ⟨hmessages, fun q hq => herrors ▸ hq, fun m hm => ?_, fun q hq => ?_,
    fun _ => ⟨fun m hm => ?_, hpoint⟩⟩
  · rw [newMessages_of_had hst] at hm
    cases hm
  · rw [hpoint] at hq
    cases hq
  · rw [newMessages_of_had hst] at hm
    cases hm

theorem onPacket_told {pkt : RawPacket π} {queue : List (RawPacket π)} {batchEnd stop : Nat}
    {todo : List (Nat × Nat)} (hpoint : r.point = .packet pkt queue batchEnd stop todo)
    (h : Receive.onPacket c now st r pkt queue batchEnd stop todo = (st', .ok run)) :
    Told c now st r st' run := by
  have hunreadable : r.unreadable c
      = if (c.decryptPacket pkt.seq pkt.payload).isNone then [pkt.seq] else [] := by
    simp only [Receive.unreadable, Inbox.undecryptable, hpoint]
  unfold Receive.onPacket at h
  cases hdec : c.decryptPacket pkt.seq pkt.payload with
  | none =>
      rw [hdec] at h
      cases h
      rw [hdec] at hunreadable
      have hsame : newMessages st st = [] := newMessages_of_had fun m hm => .of_mem hm
      refine ⟨fun m hm => hm, fun q hq => List.mem_append_left _ hq, fun m hm => ?_,
        fun q hq => ?_, fun hnone => ?_⟩
      · rw [hsame] at hm
        cases hm
      · rw [hunreadable] at hq
        exact List.mem_append_right _ hq
      · simp only [Receive.NothingNew, hpoint, hdec] at hnone
  | some inner =>
      rw [hdec] at h
      rw [hdec] at hunreadable
      have hnothing : r.NothingNew c now st → SettlesPacket c now st inner pkt.seq := by
        intro hnone
        simpa only [Receive.NothingNew, hpoint, hdec] using hnone
      dsimp only at h
      split at h
      · cases h
      · split at h
        · cases h
          exact .aside (fun m hm => had_of_updateStatus hm) (fun m hm => hm) rfl hunreadable
        · have hp := processed c now st inner pkt.seq
          split at h
          · cases h
          · rename_i st₁ msg heq
            cases h
            rw [heq] at hp
            refine ⟨fun m hm => List.mem_append_left _ hm, fun q hq => hq, fun m hm => ?_,
              fun q hq => ?_, fun hnone => ⟨fun m hm => ?_, hunreadable⟩⟩
            · obtain ⟨hmem, hnot⟩ := mem_newMessages.mp hm
              have htold := (hp.told m hmem).resolve_left hnot
              rw [Except.ok.inj htold]
              exact List.mem_append_right _ (List.mem_singleton_self _)
            · rw [hunreadable] at hq
              cases hq
            · obtain ⟨hmem, hnot⟩ := mem_newMessages.mp hm
              exact (hp.settled (hnothing hnone) m hmem).resolve_left hnot

theorem localStep_told (h : r.localStep c now st = some (st', .ok run)) :
    Told c now st r st' run := by
  have hkeep : ∀ {seq : Nat} (m : Message), m ∈ (st.setLastPulledSeq c.key seq).messages →
      st.Had m := by
    intro seq m hm
    rw [LocalStore.setLastPulledSeq_messages] at hm
    exact .of_mem hm
  unfold Receive.localStep at h
  split at h
  · rename_i hpoint
    cases h
    exact .aside (fun m hm => .of_mem hm) (by simp) (by simp)
      (by simp [Receive.unreadable, Inbox.undecryptable, hpoint])
  · rename_i hpoint
    cases h
    exact .aside hkeep (by simp) (by simp)
      (by simp [Receive.unreadable, Inbox.undecryptable, hpoint])
  · rename_i hpoint
    exact onPacket_told hpoint (Option.some.inj h)
  · rename_i hpoint
    cases h
    exact .aside hkeep (fun m hm => by simp [hm]) (by simp)
      (by simp [Receive.unreadable, Inbox.undecryptable, hpoint])
  · rename_i hpoint
    split at h
    · cases h
      exact .aside hkeep (fun m hm => hm) rfl
        (by simp [Receive.unreadable, Inbox.undecryptable, hpoint])
    · cases h
      exact .aside (fun m hm => .of_mem hm) (fun m hm => hm) rfl
        (by simp [Receive.unreadable, Inbox.undecryptable, hpoint])
  · rename_i hpoint
    split at h <;> cases h <;>
      exact .aside (fun m hm => .of_mem hm) (fun m hm => hm) rfl
        (by simp [Receive.unreadable, Inbox.undecryptable, hpoint])
  · rename_i hpoint
    cases h
    exact .aside (fun m hm => .of_mem (LocalStore.mem_deleteMessagesBySeqs.mp hm).1)
      (fun m hm => hm) rfl (by simp [Receive.unreadable, Inbox.undecryptable, hpoint])
  · cases h

/-- A step that fails has put no message into the database, and has read its packet. -/
theorem localStep_failed {e : Fault} (h : r.localStep c now st = some (st', .error e)) :
    newMessages st st' = [] ∧ r.unreadable c = [] := by
  unfold Receive.localStep at h
  split at h
  · cases h
  · cases h
  · rename_i pkt queue batchEnd stop todo hpoint
    have h := Option.some.inj h
    unfold Receive.onPacket at h
    cases hdec : c.decryptPacket pkt.seq pkt.payload with
    | none =>
        rw [hdec] at h
        cases h
    | some inner =>
        rw [hdec] at h
        refine ⟨?_, by simp [Receive.unreadable, Inbox.undecryptable, hpoint, hdec]⟩
        dsimp only at h
        split at h
        · cases h
          exact newMessages_of_had fun m hm => .of_mem hm
        · split at h
          · cases h
          · have hp := processed c now st inner pkt.seq
            split at h
            · rename_i heq
              cases h
              rw [heq] at hp
              exact newMessages_of_had fun m hm => (hp.told m hm).resolve_right (by simp)
            · cases h
  · cases h
  · split at h <;> cases h
  · split at h <;> cases h
  · cases h
  · cases h

end Step

/-! ## Runs -/

namespace Inbox

variable {κ π : Type} [Aead κ π] {c : Client κ} {s s' : Inbox π} {l : InboxLabel π}

/-- This `receive` has got nothing of the other party yet. -/
def Empty (c : Client κ) (r : Receive π) : Prop :=
  (∀ m ∈ r.messages, m.sender = c.username) ∧ r.decryptErrors = []

instance (r : Receive π) : Decidable (Empty c r) := inferInstanceAs (Decidable (_ ∧ _))

/-- The call is `receive` itself. -/
def isReceive : Outer π → Bool
  | .receive => true
  | _ => false

/-- A `receive` inside another call has nothing new to receive, and one of its own fails only while
it has got nothing. -/
def Allowed (c : Client κ) (s : Inbox π) : InboxLabel π → Prop
  | .localStep env => ∀ t ∈ s.task, ∀ rx ∈ t.rx,
      if isReceive t.outer then
        Empty c rx.run ∨ ∀ out ∈ rx.run.localStep c env.now s.store, out.2.isOk = true
      else rx.run.NothingNew c env.now s.store
  | .fail => ∀ t ∈ s.task, ∀ rx ∈ t.rx, isReceive t.outer = true → Empty c rx.run
  | _ => True

instance (s : Inbox π) (l : InboxLabel π) : Decidable (Allowed c s l) :=
  match l with
  | .localStep _ => inferInstanceAs (Decidable (∀ t ∈ s.task, ∀ rx ∈ t.rx, ite _ _ _))
  | .fail => inferInstanceAs (Decidable (∀ t ∈ s.task, ∀ rx ∈ t.rx, _ → _))
  | .start _ | .map _ | .pull _ | .notified _ | .pushed _ | .timeout _ | .existing _ =>
      .isTrue trivial

/-- Everything has been returned, or will be by the call that is under way. -/
structure Reported (c : Client κ) (s : Inbox π) : Prop where
  foreign : ∀ m ∈ s.stored, m.sender ≠ c.username
  stored : ∀ m ∈ s.stored, (∃ r ∈ s.returned, m ∈ r.1)
    ∨ ∃ rx, s.task = some ⟨some rx, .receive⟩ ∧ m ∈ rx.run.messages
  undecrypted : ∀ q ∈ s.undecrypted, (∃ r ∈ s.returned, q ∈ r.2)
    ∨ ∃ rx, s.task = some ⟨some rx, .receive⟩ ∧ q ∈ rx.run.decryptErrors

omit [Aead κ π] in
/-- A step outside of `receive`. -/
theorem Reported.outside (h : Reported c s) (htask : ∀ rx, s.task ≠ some ⟨some rx, .receive⟩)
    (hstored : s'.stored = s.stored) (hundecrypted : s'.undecrypted = s.undecrypted)
    (hreturned : s'.returned = s.returned) : Reported c s' := by
  refine ⟨fun m hm => h.foreign m (hstored ▸ hm), fun m hm => ?_, fun q hq => ?_⟩
  · rw [hreturned]
    refine .inl ((h.stored m (hstored ▸ hm)).resolve_right ?_)
    rintro ⟨rx, hrx, -⟩
    exact htask rx hrx
  · rw [hreturned]
    refine .inl ((h.undecrypted q (hundecrypted ▸ hq)).resolve_right ?_)
    rintro ⟨rx, hrx, -⟩
    exact htask rx hrx

/-- A step of a `receive` that goes on. -/
theorem Reported.receive {rx : Rx π} {outer : Outer π} {out : Local π} {run : Receive π} {now : Int}
    (h : Reported c s) (ht : s.task = some ⟨some rx, outer⟩)
    (htask : out.task = some ⟨some { rx with run := run }, outer⟩)
    (htold : Told c now s.store rx.run out.store run)
    (hnothing : outer ≠ .receive → rx.run.NothingNew c now s.store)
    (hresult : result (⟨some rx, outer⟩ : Task π) = []) :
    Reported c (s.after c ⟨some rx, outer⟩ out) := by
  have hgoes : ∀ {P : Receive π → Prop} {rx' : Rx π}, s.task = some ⟨some rx', .receive⟩ →
      P rx'.run → (P rx.run → P run) →
        ∃ rx', out.task = some ⟨some rx', .receive⟩ ∧ P rx'.run := by
    intro P rx' hrx' hP himp
    rw [ht] at hrx'
    cases hrx'
    exact ⟨_, htask, himp hP⟩
  refine ⟨fun m hm => ?_, fun m hm => ?_, fun q hq => ?_⟩
  · rcases List.mem_append.mp hm with hm | hm
    · exact h.foreign m hm
    · simpa using (List.mem_filter.mp hm).2
  · change (∃ r ∈ s.returned ++ result _, m ∈ r.1) ∨ _
    rw [hresult, List.append_nil]
    rcases List.mem_append.mp hm with hm | hm
    · refine (h.stored m hm).imp_right ?_
      rintro ⟨rx', hrx', hmem⟩
      exact hgoes (P := fun r => m ∈ r.messages) hrx' hmem (htold.kept m)
    · obtain ⟨hnew, hforeign⟩ := List.mem_filter.mp hm
      by_cases hrecv : outer = .receive
      · subst hrecv
        exact .inr ⟨_, htask, htold.told m hnew⟩
      · have hown := (htold.settled (hnothing hrecv)).1 m hnew
        simp [hown] at hforeign
  · change (∃ r ∈ s.returned ++ result _, q ∈ r.2) ∨ _
    rw [hresult, List.append_nil]
    rcases List.mem_append.mp hq with hq | hq
    · refine (h.undecrypted q hq).imp_right ?_
      rintro ⟨rx', hrx', hmem⟩
      exact hgoes (P := fun r => q ∈ r.decryptErrors) hrx' hmem (htold.counted q)
    · by_cases hrecv : outer = .receive
      · subst hrecv
        exact .inr ⟨_, htask, htold.unreadable q hq⟩
      · have hnone : rx.run.unreadable c = [] := (htold.settled (hnothing hrecv)).2
        change q ∈ rx.run.unreadable c at hq
        rw [hnone] at hq
        cases hq

/-- A step that is the last one of a call. -/
theorem Reported.ended {t : Task π} {out : Local π} (h : Reported c s) (ht : s.task = some t)
    (hstored : (s.after c t out).stored = s.stored)
    (hundecrypted : (s.after c t out).undecrypted = s.undecrypted)
    (hlost : ∀ rx, t = ⟨some rx, .receive⟩ →
      Empty c rx.run ∨ (rx.run.messages, rx.run.decryptErrors) ∈ result t) :
    Reported c (s.after c t out) := by
  refine ⟨fun m hm => h.foreign m (hstored ▸ hm), fun m hm => .inl ?_, fun q hq => .inl ?_⟩
  · rw [hstored] at hm
    rcases h.stored m hm with ⟨r, hr, hmem⟩ | ⟨rx, hrx, hmem⟩
    · exact ⟨r, List.mem_append_left _ hr, hmem⟩
    · rw [ht] at hrx
      rcases hlost rx (Option.some.inj hrx) with hempty | hreturned
      · exact absurd (hempty.1 m hmem) (h.foreign m hm)
      · exact ⟨_, List.mem_append_right _ hreturned, hmem⟩
  · rw [hundecrypted] at hq
    rcases h.undecrypted q hq with ⟨r, hr, hmem⟩ | ⟨rx, hrx, hmem⟩
    · exact ⟨r, List.mem_append_left _ hr, hmem⟩
    · rw [ht] at hrx
      rcases hlost rx (Option.some.inj hrx) with hempty | hreturned
      · rw [hempty.2] at hmem
        cases hmem
      · exact ⟨_, List.mem_append_right _ hreturned, hmem⟩

omit [Aead κ π] in
theorem result_of_ne {rx : Rx π} {outer : Outer π} (h : outer ≠ .receive) :
    result (⟨some rx, outer⟩ : Task π) = [] := by
  unfold result
  cases outer <;> first | exact absurd rfl h | rfl

omit [Aead κ π] in
theorem result_of_point {rx : Rx π} {outer : Outer π} (h : rx.run.point ≠ .done) :
    result (⟨some rx, outer⟩ : Task π) = [] := by
  by_cases hrecv : outer = .receive
  · subst hrecv
    unfold result
    dsimp only
    split
    · rename_i hdone
      exact absurd hdone h
    · rfl
  · exact result_of_ne hrecv

theorem allowed_inside {rx : Rx π} {outer : Outer π} {env : Env}
    (hok : Allowed c s (.localStep env)) (ht : s.task = some ⟨some rx, outer⟩)
    (hne : outer ≠ .receive) : rx.run.NothingNew c env.now s.store := by
  have h := hok _ ht rx rfl
  have hother : isReceive outer = false := by
    cases outer <;> first | exact absurd rfl hne | rfl
  rwa [if_neg (by simp [hother])] at h

theorem after_stored {rx : Rx π} {outer : Outer π} {out : Local π}
    (h : newMessages s.store out.store = []) :
    (s.after c ⟨some rx, outer⟩ out).stored = s.stored := by
  unfold after
  rw [h]
  simp

theorem Reported.localStep {env : Env} (h : Reported c s) (hok : Allowed c s (.localStep env))
    (hs : Inbox.step c s (.localStep env) = some s') : Reported c s' := by
  obtain ⟨⟨rx, outer⟩, ht, hs⟩ := Option.bind_eq_some_iff.mp hs
  obtain ⟨out, hout, rfl⟩ := Option.map_eq_some_iff.mp hs
  cases rx with
  | none =>
      refine h.ended ht rfl (List.append_nil _) ?_
      rintro rx heq
      cases heq
  | some rx =>
      have hsame : newMessages s.store s.store = [] := newMessages_of_had fun m hm => .of_mem hm
      change Task.receiveStep c env s.store rx outer = some out at hout
      unfold Task.receiveStep at hout
      split at hout
      · rename_i hdone
        cases hout
        refine h.ended ht (after_stored hsame) ?_ ?_
        · simp [after, undecryptable, hdone]
        · rintro rx' heq
          cases heq
          simp [result, hdone]
      · rename_i hdone
        split at hout
        · cases hout
        · rename_i st e hstep
          cases hout
          obtain ⟨hnew, hread⟩ := localStep_failed hstep
          refine h.ended ht (after_stored hnew) ?_ ?_
          · change s.undecrypted ++ rx.run.unreadable c = _
            rw [hread, List.append_nil]
          · rintro rx' heq
            cases heq
            have hown : Empty c rx.run ∨
                ∀ out ∈ rx.run.localStep c env.now s.store, out.2.isOk = true := hok _ ht rx rfl
            refine .inl (hown.resolve_right fun hnot => ?_)
            have := hnot _ hstep
            cases this
        · rename_i st run hstep
          cases hout
          exact h.receive ht rfl (localStep_told hstep) (allowed_inside hok ht)
            (result_of_point hdone)

omit [Aead κ π] in
/-- An answer to a request of a `receive`. -/
theorem Reported.onRx (h : Reported c s) {f : Receive π → Option (Receive π)}
    (hf : ∀ r run, f r = some run → run.messages = r.messages ∧ run.decryptErrors = r.decryptErrors)
    (hs : s.onRx f = some s') : Reported c s' := by
  unfold Inbox.onRx at hs
  split at hs
  · rename_i rx outer ht
    obtain ⟨run, hrun, rfl⟩ := Option.map_eq_some_iff.mp hs
    obtain ⟨hmessages, herrors⟩ := hf _ _ hrun
    refine ⟨h.foreign, fun m hm => (h.stored m hm).imp_right ?_,
      fun q hq => (h.undecrypted q hq).imp_right ?_⟩
    · rintro ⟨rx', hrx', hmem⟩
      rw [ht] at hrx'
      cases hrx'
      exact ⟨_, rfl, hmessages ▸ hmem⟩
    · rintro ⟨rx', hrx', hmem⟩
      rw [ht] at hrx'
      cases hrx'
      exact ⟨_, rfl, herrors ▸ hmem⟩
  · cases hs

omit [Aead κ π] in
theorem Reported.onOuter (h : Reported c s) {f : Outer π → Option (Option (Task π))}
    (hs : s.onOuter f = some s') : Reported c s' := by
  unfold Inbox.onOuter at hs
  split at hs
  · rename_i outer ht
    obtain ⟨task, -, rfl⟩ := Option.map_eq_some_iff.mp hs
    refine h.outside (fun rx hrx => ?_) rfl rfl rfl
    rw [ht] at hrx
    cases hrx
  · cases hs

theorem Reported.step (h : Reported c s) (hok : Allowed c s l) (hs : Inbox.step c s l = some s') :
    Reported c s' := by
  cases l with
  | start call =>
      obtain ⟨⟨hnone, -⟩, hs⟩ := Option.ite_none_right_eq_some.mp hs
      cases hs
      refine h.outside (fun rx hrx => ?_) rfl rfl rfl
      rw [hrx] at hnone
      cases hnone
  | localStep env => exact h.localStep hok hs
  | map m =>
      rw [Inbox.step] at hs
      refine h.onRx (fun r run hrun => ?_) hs
      split at hrun
      · cases hrun
        exact ⟨Receive.messages_onMap _, Receive.decryptErrors_onMap _⟩
      · cases hrun
  | pull packets =>
      rw [Inbox.step] at hs
      refine h.onRx (fun r run hrun => ?_) hs
      split at hrun
      · cases hrun
        exact ⟨Receive.messages_onPull _ _ _ _, Receive.decryptErrors_onPull _ _ _ _⟩
      · cases hrun
  | notified => exact h.onOuter hs
  | pushed => exact h.onOuter hs
  | timeout => exact h.onOuter hs
  | existing => exact h.onOuter hs
  | fail =>
      obtain ⟨t, ht, rfl⟩ := Option.map_eq_some_iff.mp hs
      refine ⟨h.foreign, fun m hm => .inl ((h.stored m hm).resolve_right ?_),
        fun q hq => .inl ((h.undecrypted q hq).resolve_right ?_)⟩
      · rintro ⟨rx, hrx, hmem⟩
        have hempty : Empty c rx.run := hok _ hrx rx rfl rfl
        exact h.foreign m hm (hempty.1 m hmem)
      · rintro ⟨rx, hrx, hmem⟩
        have hempty : Empty c rx.run := hok _ hrx rx rfl rfl
        rw [hempty.2] at hmem
        cases hmem

/-- **Received messages reach the application**: when no call is under way, every message of the
other party that was stored is in a result that was returned, and so is every packet that could not
be decrypted. -/
theorem received_told {store : LocalStore} (hr : Lts.Reach (Inbox.step c) (Allowed c) (init store) s)
    (hidle : s.task = none) :
    (∀ m ∈ s.stored, ∃ r ∈ s.returned, m ∈ r.1)
      ∧ ∀ q ∈ s.undecrypted, ∃ r ∈ s.returned, q ∈ r.2 := by
  have h : Reported c s := by
    refine hr.invariant (P := Reported c) ⟨fun _ hm => absurd hm List.not_mem_nil,
      fun _ hm => absurd hm List.not_mem_nil, fun _ hq => absurd hq List.not_mem_nil⟩ ?_
    exact fun _ _ _ _ h hok hs => h.step hok hs
  refine ⟨fun m hm => (h.stored m hm).resolve_right ?_,
    fun q hq => (h.undecrypted q hq).resolve_right ?_⟩
  · rintro ⟨rx, hrx, -⟩
    rw [hidle] at hrx
    cases hrx
  · rintro ⟨rx, hrx, -⟩
    rw [hidle] at hrx
    cases hrx

section Example

def alice : Client Nat where
  username := "alice"
  key := ⟨"alice", "bob"⟩
  keyring := [⟨1, 7⟩]
  deriveTopicId _ name := name
  allocLimit := 1000
  reserveUrls := 0
  readFile _ := none

def hello (seq : Nat) : RawPacket Sealed :=
  ⟨seq, ⟨7, 0, ⟨"m" ++ toString seq, 0, "bob", .text "Hello", none⟩⟩⟩

/-- The client asks for the map and pulls what is new: `packets`, numbered `first` to `last`. -/
def answers (first last : Nat) (packets : List (RawPacket Sealed)) : List (InboxLabel Sealed) :=
  [.map ⟨[(first, last)], last, false⟩, .localStep default, .pull packets]

/-- Bob has written; Alice sends, and the call receives what he wrote. -/
def sendsFirst : List (InboxLabel Sealed) :=
  .start (.send ⟨.text "Hi", 0, none⟩) :: .notified true :: answers 1 1 [hello 1]
    ++ [.localStep default, .localStep default, .localStep default, .localStep default,
      .localStep default]

/-- Bob has written twice, and the connection breaks after the first. -/
def breaksOff : List (InboxLabel Sealed) :=
  .start .receive :: answers 1 2 [hello 1, hello 2] ++ [.localStep default, .localStep default, .fail]

def finished (ls : List (InboxLabel Sealed)) : Inbox Sealed :=
  (Lts.exec (Inbox.step alice) (init .empty) ls).getD (init .empty)

/-- The message is stored and the cursor is past it, and no result has it. -/
def Swallows (ls : List (InboxLabel Sealed)) : Prop :=
  (Lts.exec (Inbox.step alice) (init .empty) ls).isSome = true
    ∧ (finished ls).stored.map Message.id = ["m1"] ∧ (finished ls).returned = []
    ∧ (finished ls).store.getLastPulledSeq alice.key = 1

instance (ls : List (InboxLabel Sealed)) : Decidable (Swallows ls) :=
  inferInstanceAs (Decidable (_ ∧ _ ∧ _ ∧ _))

theorem message_swallowed : Swallows sendsFirst ∧ Swallows breaksOff := by
  decide +kernel

/-- Alice receives on her own account. -/
def receives : List (InboxLabel Sealed) :=
  .start .receive :: answers 1 1 [hello 1]
    ++ [.localStep default, .localStep default, .localStep default, .localStep default,
      .localStep default]

theorem received_told_receives :
    (finished receives).stored.map Message.id = ["m1"]
      ∧ ∀ m ∈ (finished receives).stored, ∃ r ∈ (finished receives).returned, m ∈ r.1 := by
  have h : (Lts.execWhile (Inbox.step alice) (Allowed alice) (init .empty) receives).isSome
      = true := by decide +kernel
  exact ⟨by decide +kernel, (received_told (Lts.reach_exec h) (by decide +kernel)).1⟩

end Example

end Inbox

end Paranoia
