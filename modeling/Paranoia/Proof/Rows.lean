import Paranoia.Proof.Calls

/-!
# Where rows come from

A message row of a device is an old row with perhaps another status, a message the
device saved for a call of its own, or what became of a packet it processed:
`row_step`. The same for the buffered chunks is `chunk_step`, and `row_kept` is the
other direction: a row goes only to a row with the same id, or to a sweep.
-/

namespace Paranoia

variable {κ π : Type} {n : Nat}

/-- The row is the same up to its status. -/
def Message.SameRow (m m' : Message) : Prop := m' = { m with status := m'.status }

theorem Message.SameRow.refl (m : Message) : m.SameRow m := rfl

theorem Message.SameRow.trans {m₁ m₂ m₃ : Message} (h : m₁.SameRow m₂) (h' : m₂.SameRow m₃) :
    m₁.SameRow m₃ := by
  calc m₃ = { m₂ with status := m₃.status } := h'
    _ = { m₁ with status := m₃.status } := by rw [h]

/-- A row after a step that keeps it. Its status changes by a read receipt, because a packet of
the account itself, one of the packets `Q`, is found at its place, or by a call that stands at one
of `O`. -/
inductive Message.Restated [Aead κ π] (c : Client κ) (Q : RawPacket π → Prop) (O : Outer π → Prop)
    (m : Message) : Message → Prop where
  | same : Restated c Q O m m
  | read (h : m.status = .sent ∨ m.status = .delivered) :
      Restated c Q O m { m with status := .read }
  | delivered {pkt : RawPacket π} {inner : PacketInner} (hpkt : Q pkt)
      (hdec : c.decryptPacket pkt.seq pkt.payload = some inner)
      (hsender : inner.sender = c.username) (hdialogue : m.dialogue = c.key)
      (hseq : m.serverSeq = some pkt.seq) : Restated c Q O m { m with status := .delivered }
  | sent {mode : Mode} {t : OutboundTransfer} (hat : O (.markSent mode t))
      (hid : m.id = t.transferId) : Restated c Q O m { m with status := .sent }
  | failed {pending : List OutboundTransfer} {t : OutboundTransfer} (hat : O (.giveUp pending t))
      (hid : m.id = t.transferId) : Restated c Q O m { m with status := .failed }

section Restated

variable [Aead κ π] {c : Client κ} {Q Q' : RawPacket π → Prop} {O O' : Outer π → Prop}
  {m m' : Message}

theorem Message.Restated.mono (h : m.Restated c Q O m') (hQ : ∀ pkt, Q pkt → Q' pkt)
    (hO : ∀ o, O o → O' o) : m.Restated c Q' O' m' := by
  cases h with
  | same => exact .same
  | read h => exact .read h
  | delivered hpkt hdec hsender hd hs => exact .delivered (hQ _ hpkt) hdec hsender hd hs
  | sent hat hid => exact .sent (hO _ hat) hid
  | failed hat hid => exact .failed (hO _ hat) hid

theorem Message.Restated.sameRow (h : m.Restated c Q O m') : m.SameRow m' := by
  cases h with
  | same => exact .refl m
  | _ => rfl

end Restated

/-- The message an incoming packet is stored as, if it is stored in one piece. -/
def Client.incomingMessage (c : Client κ) (now : Int) (inner : PacketInner) (seq : Nat) :
    Option Message :=
  match inner.content with
  | .readReceipt _ => none
  | .delete _ => none
  | .fileHeader transferId kind filename mimeType totalSize chunks groupId =>
      (checkedAdd seq chunks).map (fun bodyToSeq =>
        c.headerMessage now inner seq transferId kind filename mimeType totalSize chunks groupId
          bodyToSeq)
  | .fileChunk .. => none
  | _ => some (c.contentMessage now inner seq)

/-- The message is a file put together from these rows, in order; each of them is `P`. -/
structure Message.PutTogether (m : Message) (P : ChunkRow → Prop) (key : DialogueKey)
    (rows : List ChunkRow) : Prop where
  pieces : ∀ r ∈ rows, P r ∧ r.transferId = m.id ∧ r.dialogue = key
  ordered : rows.Pairwise (fun a b => a.chunkIndex ≤ b.chunkIndex)
  sender : ∃ r ∈ rows, r.sender = m.sender
  content : ∃ file, m.content = .file file ∧ file.transferId = some m.id
    ∧ file.data = (rows.map ChunkRow.data).flatten

theorem Message.PutTogether.mono {m : Message} {P P' : ChunkRow → Prop} {key : DialogueKey}
    {rows : List ChunkRow} (h : m.PutTogether P key rows) (hP : ∀ r, P r → P' r) :
    m.PutTogether P' key rows :=
  { h with pieces := fun r hr => (h.pieces r hr).imp_left (hP r) }

/-- The row of a file whose last missing chunk the packet at `seq` is. -/
structure Assembled (c : Client κ) (now : Int) (st : LocalStore) (inner : PacketInner) (seq : Nat)
    (m : Message) : Prop where
  chunk : ∃ index total filename mimeType totalSize data rows,
    inner.content = .fileChunk m.id index total filename mimeType totalSize data
      ∧ m.PutTogether (fun r => r ∈ st.incomingChunks
          ∨ r = c.chunkRow now inner m.id index total filename mimeType totalSize data) c.key rows
  dialogue : m.dialogue = c.key
  serverSeq : m.serverSeq = some seq
  status : m.status = .delivered
  fresh : ∀ r ∈ st.messages, ¬ (r.dialogue = c.key ∧ r.id = m.id)

/-- A row that processing a packet adds. -/
def NewRow (c : Client κ) (now : Int) (st : LocalStore) (inner : PacketInner) (seq : Nat)
    (m : Message) : Prop :=
  (∀ r ∈ st.messages, ¬ (r.dialogue = c.key ∧ r.serverSeq = some seq))
    ∧ (c.incomingMessage now inner seq = some m ∨ Assembled c now st inner seq m)

/-- What is received is delivered, and stands in the dialogue at the packet's number. -/
theorem incomingMessage_place {c : Client κ} {now : Int} {inner : PacketInner} {seq : Nat}
    {m : Message} (h : c.incomingMessage now inner seq = some m) :
    m.dialogue = c.key ∧ m.serverSeq = some seq ∧ m.status = .delivered := by
  unfold Client.incomingMessage at h
  split at h
  · cases h
  · cases h
  · obtain ⟨bodyToSeq, _, rfl⟩ := Option.map_eq_some_iff.mp h
    exact ⟨rfl, rfl, rfl⟩
  · cases h
  · cases h
    exact ⟨rfl, rfl, rfl⟩

section NewRow

variable {c : Client κ} {now : Int} {st : LocalStore} {inner : PacketInner} {seq : Nat}
  {m : Message}

theorem NewRow.dialogue (h : NewRow c now st inner seq m) : m.dialogue = c.key := by
  rcases h.2 with hin | hasm
  · exact (incomingMessage_place hin).1
  · exact hasm.dialogue

theorem NewRow.serverSeq (h : NewRow c now st inner seq m) : m.serverSeq = some seq := by
  rcases h.2 with hin | hasm
  · exact (incomingMessage_place hin).2.1
  · exact hasm.serverSeq

theorem NewRow.status (h : NewRow c now st inner seq m) : m.status = .delivered := by
  rcases h.2 with hin | hasm
  · exact (incomingMessage_place hin).2.2
  · exact hasm.status

end NewRow

/-! ## What rows show -/

section Shows

variable {c : Client κ} {m m' : Message} {inner : PacketInner}

theorem Message.Shows.congr (h : m.Shows inner) (hm : m.SameRow m') : m'.Shows inner := by
  rw [hm]
  exact h

theorem Message.PutTogether.congr {P : ChunkRow → Prop} {key : DialogueKey} {rows : List ChunkRow}
    (h : m.PutTogether P key rows) (hm : m.SameRow m') : m'.PutTogether P key rows := by
  rw [hm]
  exact ⟨h.pieces, h.ordered, h.sender, h.content⟩

/-- Contents that are stored as they are show as themselves. -/
theorem Message.shows_of_content (hid : m.id = inner.id) (hsender : m.sender = inner.sender)
    (hplain : ∀ transferId kind filename mimeType totalSize chunks groupId, inner.content ≠
      .fileHeader transferId kind filename mimeType totalSize chunks groupId)
    (hchunk : ∀ transferId index total filename mimeType totalSize data, inner.content ≠
      .fileChunk transferId index total filename mimeType totalSize data)
    (hcontent : m.content = inner.content
      ∨ m.content = stripRemoteLocalAttachmentState inner.content) : m.Shows inner := by
  unfold Message.Shows PacketInner.rowId
  cases hc : inner.content with
  | fileHeader => exact absurd hc (hplain _ _ _ _ _ _ _)
  | fileChunk => exact absurd hc (hchunk _ _ _ _ _ _ _)
  | _ =>
      rw [hc] at hcontent
      exact ⟨hid, hsender, hcontent⟩

/-- A packet stored in one piece is shown by its row. -/
theorem incomingMessage_shows {now : Int} {seq : Nat}
    (h : c.incomingMessage now inner seq = some m) : m.Shows inner := by
  unfold Client.incomingMessage at h
  split at h
  · cases h
  · cases h
  · rename_i transferId kind filename mimeType totalSize chunks groupId hc
    obtain ⟨bodyToSeq, _, rfl⟩ := Option.map_eq_some_iff.mp h
    unfold Message.Shows PacketInner.rowId
    rw [hc]
    exact ⟨rfl, rfl, _, rfl, rfl, rfl, rfl, rfl, rfl⟩
  · cases h
  · rename_i hheader hchunk
    cases h
    exact Message.shows_of_content rfl rfl hheader hchunk (Or.inr rfl)

/-- The message of an upload shows its header. -/
theorem message_shows {t : OutboundTransfer} (h : t.packet c 0 = some inner) :
    (t.message c).Shows inner := by
  cases h
  exact ⟨rfl, rfl, _, rfl, rfl, rfl, rfl, rfl, rfl⟩

/-- The message `send` stores shows the packet it sent. -/
theorem sentMessage_shows {env : Env} {call : SendCall} {id : MessageId} {seq : Nat}
    (hid : inner.id = id) (hcontent : inner.content = call.content)
    (hsender : inner.sender = c.username) (hsendable : call.content.isSendable = true) :
    (c.sentMessage env call id seq).Shows inner := by
  refine Message.shows_of_content hid.symm hsender.symm ?_ ?_ (Or.inl hcontent.symm)
  · intro _ _ _ _ _ _ _ hc
    rw [← hcontent, hc] at hsendable
    cases hsendable
  · intro _ _ _ _ _ _ _ hc
    rw [← hcontent, hc] at hsendable
    cases hsendable

end Shows

/-! ## One packet -/

section Packet

variable {c : Client κ} {now : Int} {st : LocalStore} {inner : PacketInner} {seq : Nat}
  {m m' : Message}

theorem maxText_mem (s : String) (ss : List String) : LocalStore.maxText s ss ∈ s :: ss := by
  unfold LocalStore.maxText
  induction ss generalizing s with
  | nil => exact List.mem_cons_self
  | cons t ss ih =>
      rw [List.foldl_cons]
      rcases List.mem_cons.mp (ih (if s < t then t else s)) with h | h
      · rw [h]
        split <;> simp
      · exact List.mem_cons_of_mem _ (List.mem_cons_of_mem _ h)

/-- An assembled file is made of buffered chunks, and attributed to the sender of one of them. -/
theorem tryAssembleChunks_file {limit : Nat} {transferId : String} {dialogue : DialogueKey}
    {file : AssembledFile}
    (h : (st.tryAssembleChunks limit transferId dialogue).2 = .ok (some file)) :
    ∃ rows : List ChunkRow,
      (∀ r ∈ rows, r ∈ st.incomingChunks ∧ r.transferId = transferId ∧ r.dialogue = dialogue)
        ∧ rows.Pairwise (fun a b => a.chunkIndex ≤ b.chunkIndex)
        ∧ (∃ r ∈ rows, r.sender = file.sender)
        ∧ file.data = (rows.map ChunkRow.data).flatten := by
  unfold LocalStore.tryAssembleChunks at h
  split at h
  · cases h
  · rename_i r rs hchunks
    split at h
    · cases h
    · split at h
      · cases h
      · cases h
        have hmem : ∀ q, q ∈ (r :: rs).insertionSort (fun x y => x.chunkIndex ≤ y.chunkIndex) ↔
            q ∈ st.chunksOf transferId dialogue := by
          intro q
          rw [hchunks]
          exact List.mem_insertionSort _
        have hsender := maxText_mem r.sender (rs.map ChunkRow.sender)
        rw [← List.map_cons] at hsender
        obtain ⟨q, hq, hs⟩ := List.mem_map.mp hsender
        rw [← hchunks] at hq
        refine ⟨_, fun p hp => LocalStore.mem_chunksOf.mp ((hmem p).mp hp), ?_,
          ⟨q, (hmem q).mpr hq, hs⟩, rfl⟩
        exact List.pairwise_insertionSort _ _

/-- **What processing a packet does to the rows**: nothing, a read receipt, or one new row. -/
theorem processIncoming_messages (c : Client κ) (now : Int) (st : LocalStore)
    (inner : PacketInner) (seq : Nat) :
    (c.processIncoming now st inner seq).1.messages = st.messages
      ∨ (∃ bound, (c.processIncoming now st inner seq).1.messages
          = (st.markReadUntil c.key bound).messages)
      ∨ ∃ msg, NewRow c now st inner seq msg
          ∧ (c.processIncoming now st inner seq).1.messages = (st.saveMessage msg).messages := by
  unfold Client.processIncoming
  split
  · exact Or.inl rfl
  · rename_i hnone
    have hplace : ∀ r ∈ st.messages, ¬ (r.dialogue = c.key ∧ r.serverSeq = some seq) :=
      fun r hr h => hnone (LocalStore.getMessageBySeq_isSome.mpr ⟨r, hr, h⟩)
    split
    · exact Or.inr (Or.inl ⟨_, rfl⟩)
    · exact Or.inl rfl
    · rename_i hc
      split
      · exact Or.inl rfl
      · rename_i bodyToSeq hadd
        refine Or.inr (Or.inr ⟨_, ⟨hplace, Or.inl ?_⟩, rfl⟩)
        unfold Client.incomingMessage
        rw [hc]
        dsimp only
        rw [hadd]
        rfl
    · rename_i transferId index total filename mimeType totalSize data hc
      split
      · exact Or.inl rfl
      · rename_i hfree
        rcases c.bufferChunk_cases st seq
          (c.chunkRow now inner transferId index total filename mimeType totalSize data) with
          ⟨_, hst⟩ | ⟨_, file, hfile, hst⟩
        · exact Or.inl (by rw [hst]; simp)
        · obtain ⟨rows, hrows, hsorted, hsender, hdata⟩ := tryAssembleChunks_file hfile
          have hput : (c.assembledMessage seq transferId total file).PutTogether
              (fun r => r ∈ st.incomingChunks ∨ r = c.chunkRow now inner transferId index total
                filename mimeType totalSize data) c.key rows :=
            { pieces := fun r hr =>
                ⟨(LocalStore.mem_saveChunk.mp (hrows r hr).1).imp_right And.left, (hrows r hr).2⟩
              ordered := hsorted
              sender := hsender
              content := ⟨_, rfl, rfl, hdata⟩ }
          refine Or.inr (Or.inr ⟨c.assembledMessage seq transferId total file,
            ⟨hplace, Or.inr ⟨⟨index, total, filename, mimeType, totalSize, data, rows, hc, hput⟩,
              rfl, rfl, rfl,
              fun q hq h => hfree (LocalStore.getMessageById_isSome.mpr ⟨q, hq, h⟩)⟩⟩, ?_⟩)
          rw [hst]
          simp [LocalStore.saveMessage, Client.chunkRow]
    · rename_i h1 h2 h3 h4
      refine Or.inr (Or.inr ⟨_, ⟨hplace, Or.inl ?_⟩, rfl⟩)
      unfold Client.incomingMessage
      split
      · rename_i heq
        exact absurd heq (h1 _)
      · rename_i heq
        exact absurd heq (h2 _)
      · rename_i heq
        exact absurd heq (h3 _ _ _ _ _ _ _)
      · rename_i heq
        exact absurd heq (h4 _ _ _ _ _ _ _)
      · rfl

theorem markReadUntil_rows {bound : Nat}
    (hm : m' ∈ (st.markReadUntil c.key bound).messages) :
    ∃ m ∈ st.messages, m' = m
      ∨ ((m.status = .sent ∨ m.status = .delivered) ∧ m' = { m with status := .read }) := by
  obtain ⟨r, hr, he⟩ := LocalStore.mem_markReadUntil.mp hm
  refine ⟨r, hr, ?_⟩
  split at he
  · rename_i hsel
    simp only [LocalStore.readUntil, Bool.and_eq_true, Bool.or_eq_true, decide_eq_true_eq] at hsel
    exact Or.inr ⟨hsel.2, he⟩
  · exact Or.inl he

theorem markReadUntil_kept {bound : Nat} (hm : m ∈ st.messages) :
    ∃ m' ∈ (st.markReadUntil c.key bound).messages, m.SameRow m' := by
  refine ⟨_, LocalStore.mem_markReadUntil.mpr ⟨m, hm, rfl⟩, ?_⟩
  split
  · rfl
  · exact .refl _

theorem updateStatus_rows {id : MessageId} {status : MessageStatus}
    (hm : m' ∈ (st.updateStatus id status).messages) :
    ∃ m ∈ st.messages, m' = m ∨ (m.id = id ∧ m' = { m with status := status }) := by
  obtain ⟨r, hr, he⟩ := LocalStore.mem_updateStatus.mp hm
  refine ⟨r, hr, ?_⟩
  split at he
  · rename_i hid
    exact Or.inr ⟨hid, he⟩
  · exact Or.inl he

theorem updateStatus_kept {id : MessageId} {status : MessageStatus} (hm : m ∈ st.messages) :
    ∃ m' ∈ (st.updateStatus id status).messages, m.SameRow m' := by
  refine ⟨_, LocalStore.mem_updateStatus.mpr ⟨m, hm, rfl⟩, ?_⟩
  split
  · rfl
  · exact .refl _

theorem saveMessage_kept {msg : Message} (hm : m ∈ st.messages) :
    (∃ m' ∈ (st.saveMessage msg).messages, m.SameRow m') ∨ m.id = msg.id := by
  by_cases hid : m.id = msg.id
  · exact Or.inr hid
  · exact Or.inl ⟨m, LocalStore.mem_saveMessage.mpr (Or.inl ⟨hm, hid⟩), .refl _⟩

/-- A row after processing a packet was there before, or is the packet's. -/
theorem processIncoming_rows (hm : m' ∈ (c.processIncoming now st inner seq).1.messages) :
    (∃ m ∈ st.messages, m' = m
      ∨ ((m.status = .sent ∨ m.status = .delivered) ∧ m' = { m with status := .read }))
      ∨ NewRow c now st inner seq m' := by
  rcases processIncoming_messages c now st inner seq with he | ⟨bound, he⟩ | ⟨msg, hnew, he⟩ <;>
    rw [he] at hm
  · exact Or.inl ⟨m', hm, Or.inl rfl⟩
  · exact Or.inl (markReadUntil_rows hm)
  · rcases LocalStore.mem_saveMessage.mp hm with ⟨hm, _⟩ | rfl
    · exact Or.inl ⟨m', hm, Or.inl rfl⟩
    · exact Or.inr hnew

/-- A row that was there stays, perhaps with another status, or gives way to one with its id. -/
theorem processIncoming_kept (hm : m ∈ st.messages) :
    (∃ m' ∈ (c.processIncoming now st inner seq).1.messages, m.SameRow m')
      ∨ ∃ m', NewRow c now st inner seq m' ∧ m.id = m'.id := by
  rcases processIncoming_messages c now st inner seq with he | ⟨bound, he⟩ | ⟨msg, hnew, he⟩ <;>
    rw [he]
  · exact Or.inl ⟨m, hm, .refl _⟩
  · exact Or.inl (markReadUntil_kept hm)
  · exact (saveMessage_kept hm).imp_right (fun hid => ⟨msg, hnew, hid⟩)

/-- A buffered chunk was buffered before, or is the packet's. -/
theorem processIncoming_chunks {r : ChunkRow}
    (hr : r ∈ (c.processIncoming now st inner seq).1.incomingChunks) :
    r ∈ st.incomingChunks ∨ ∃ transferId index total filename mimeType totalSize data,
      inner.content = .fileChunk transferId index total filename mimeType totalSize data
        ∧ r = c.chunkRow now inner transferId index total filename mimeType totalSize data := by
  unfold Client.processIncoming at hr
  split at hr
  · exact Or.inl hr
  · split at hr
    · exact Or.inl hr
    · exact Or.inl hr
    · split at hr <;> exact Or.inl hr
    · rename_i transferId index total filename mimeType totalSize data hc
      split at hr
      · exact Or.inl hr
      · have hmem : r ∈ (st.saveChunk (c.chunkRow now inner transferId index total filename mimeType
            totalSize data)).incomingChunks := by
          rcases c.bufferChunk_cases st seq
            (c.chunkRow now inner transferId index total filename mimeType totalSize data) with
            ⟨_, hst⟩ | ⟨_, file, hfile, hst⟩
          · rw [hst] at hr
            exact LocalStore.mem_of_mem_tryAssembleChunks hr
          · rw [hst] at hr
            exact LocalStore.mem_of_mem_tryAssembleChunks hr
        refine (LocalStore.mem_saveChunk.mp hmem).imp_right (fun h => ?_)
        exact ⟨transferId, index, total, filename, mimeType, totalSize, data, hc, h.1⟩
    · exact Or.inl hr

end Packet

/-! ## Moves of a running `receive` -/

section Move

variable [Aead κ π] {c : Client κ} {env : Env} {ps : PacketStore π} {st st' : LocalStore}
  {r r' : Receive π} {notices : List (Notice π)} {m m' : Message}

/-- A row after a move was there before, or is that of a packet the call held. -/
theorem RxMove.rows (h : RxMove c env ps st r st' r' notices) (hm : m' ∈ st'.messages) :
    (∃ m ∈ st.messages, m.Restated c (· ∈ r.queue) (fun _ => False) m')
      ∨ ∃ pkt ∈ r.queue, ∃ inner, c.decryptPacket pkt.seq pkt.payload = some inner
        ∧ NewRow c env.now st inner pkt.seq m' := by
  cases h with
  | @packet pkt _ _ _ _ _ _ _ _ _ _ hp hstep =>
      have hpkt : pkt ∈ r.queue := by simp [Receive.queue, hp]
      cases hstep with
      | undecryptable => exact Or.inl ⟨m', hm, .same⟩
      | @own inner _ _ id hdec _ hsender hid =>
          obtain ⟨m, hmem, he | ⟨hmid, he⟩⟩ := updateStatus_rows hm
          · exact Or.inl ⟨m, hmem, he ▸ .same⟩
          · -- the id is that of the row at the packet's place
            obtain ⟨row, hrow, hrid⟩ := Option.map_eq_some_iff.mp hid
            obtain ⟨hrowmem, hat⟩ := Table.find?_some hrow
            have hsame : row = m := Table.eq_of_key hrowmem hmem (hrid.trans hmid.symm)
            simp only [LocalStore.isAt, Bool.and_eq_true, decide_eq_true_eq] at hat
            rw [hsame] at hat
            subst he
            exact Or.inl ⟨m, hmem, .delivered hpkt hdec hsender hat.1 hat.2⟩
      | @processed inner _ _ _ _ hdec _ hproc =>
          have hm' : m' ∈ (c.processIncoming env.now st inner pkt.seq).1.messages := by
            rw [hproc]
            exact hm
          rcases processIncoming_rows hm' with ⟨m, hmem, he | ⟨hst, he⟩⟩ | hnew
          · exact Or.inl ⟨m, hmem, he ▸ .same⟩
          · subst he
            exact Or.inl ⟨m, hmem, .read hst⟩
          · exact Or.inr ⟨pkt, hpkt, inner, hdec, hnew⟩
  | delete => exact Or.inl ⟨m', (LocalStore.mem_deleteMessagesBySeqs.mp hm).1, .same⟩
  | _ => exact Or.inl ⟨m', hm, .same⟩

/-- A row goes only to a row with its id, or to a sweep that names its number. -/
theorem RxMove.kept (h : RxMove c env ps st r st' r' notices) (hm : m ∈ st.messages) :
    (∃ m' ∈ st'.messages, m.SameRow m')
      ∨ (∃ pkt ∈ r.queue, ∃ inner m', c.decryptPacket pkt.seq pkt.payload = some inner
          ∧ NewRow c env.now st inner pkt.seq m' ∧ m.id = m'.id)
      ∨ ∃ ts, r.point = .delete ts ∧ m.dialogue = c.key ∧ ∃ s ∈ ts, m.serverSeq = some s := by
  cases h with
  | @packet pkt _ _ _ _ _ _ _ _ _ _ hp hstep =>
      cases hstep with
      | undecryptable => exact Or.inl ⟨m, hm, .refl _⟩
      | own => exact Or.inl (updateStatus_kept hm)
      | @processed inner _ _ _ _ hdec _ hproc =>
          have hkept : (∃ m' ∈ (c.processIncoming env.now st inner pkt.seq).1.messages, m.SameRow m')
              ∨ ∃ m', NewRow c env.now st inner pkt.seq m' ∧ m.id = m'.id := processIncoming_kept hm
          rw [hproc] at hkept
          refine hkept.imp_right (fun ⟨m', hnew, hid⟩ => Or.inl ⟨_, ?_, _, m', hdec, hnew, hid⟩)
          simp [Receive.queue, hp]
  | @delete ts hp =>
      by_cases hd : m.dialogue = c.key ∧ ∃ s ∈ ts, m.serverSeq = some s
      · exact Or.inr (Or.inr ⟨ts, hp, hd⟩)
      · exact Or.inl ⟨m, LocalStore.mem_deleteMessagesBySeqs.mpr ⟨hm, hd⟩, .refl _⟩
  | _ => exact Or.inl ⟨m, hm, .refl _⟩

theorem RxMove.chunks (h : RxMove c env ps st r st' r' notices) {row : ChunkRow}
    (hr : row ∈ st'.incomingChunks) : row ∈ st.incomingChunks ∨ ∃ pkt ∈ r.queue, ∃ inner,
      c.decryptPacket pkt.seq pkt.payload = some inner
        ∧ ∃ transferId index total filename mimeType totalSize data,
          inner.content = .fileChunk transferId index total filename mimeType totalSize data
            ∧ row = c.chunkRow env.now inner transferId index total filename mimeType totalSize
              data := by
  cases h with
  | @packet pkt _ _ _ _ _ _ _ _ _ _ hp hstep =>
      cases hstep with
      | undecryptable => exact Or.inl hr
      | own => exact Or.inl hr
      | @processed inner _ _ _ _ hdec _ hproc =>
          have hr' : row ∈ (c.processIncoming env.now st inner pkt.seq).1.incomingChunks := by
            rw [hproc]
            exact hr
          refine (processIncoming_chunks hr').imp_right (fun hnew => ⟨_, ?_, _, hdec, hnew⟩)
          simp [Receive.queue, hp]
  | _ => exact Or.inl hr

end Move

/-! ## Steps outside of `receive` -/

section OuterStep

variable [Aead κ π] {c : Client κ} {env : Env} {st : LocalStore} {outer : Outer π} {out : Local π}
  {m m' : Message}

/-- The message a step outside of `receive` saves, if it saves one. -/
def Outer.saves (c : Client κ) (env : Env) : Outer π → Option Message
  | .save call id seq => some (c.sentMessage env call id seq)
  | .saveSending t => some (t.message c)
  | _ => none

/-- **What a step outside of `receive` does to the rows**: statuses, or one message of its own. -/
theorem OuterStep.messages (h : OuterStep c env st outer out) :
    out.store.messages = st.messages
      ∨ (∃ id status, out.store.messages = (st.updateStatus id status).messages)
      ∨ ∃ msg, outer.saves c env = some msg
          ∧ out.store.messages = (st.saveMessage msg).messages := by
  cases h with
  | ends hst => exact Or.inl hst.messages
  | compose hst => exact Or.inl hst.messages
  | reserve hst => exact Or.inl hst.messages
  | save => exact Or.inr (Or.inr ⟨_, rfl, rfl⟩)
  | saveSending => exact Or.inr (Or.inr ⟨_, rfl, rfl⟩)
  | markSent => exact Or.inr (Or.inl ⟨_, _, rfl⟩)
  | giveUp => exact Or.inr (Or.inl ⟨_, _, rfl⟩)
  | _ => exact Or.inl rfl

theorem OuterStep.rows (h : OuterStep c env st outer out) (hm : m' ∈ out.store.messages) :
    (∃ m ∈ st.messages, m.Restated c (fun _ : RawPacket π => False) (· = outer) m')
      ∨ outer.saves c env = some m' := by
  have hkept : out.store.messages = st.messages →
      ∃ m ∈ st.messages, m.Restated c (fun _ : RawPacket π => False) (· = outer) m' :=
    fun he => ⟨m', he ▸ hm, .same⟩
  cases h with
  | ends hst => exact Or.inl (hkept hst.messages)
  | compose hst => exact Or.inl (hkept hst.messages)
  | reserve hst => exact Or.inl (hkept hst.messages)
  | save =>
      rcases LocalStore.mem_saveMessage.mp hm with ⟨hm, _⟩ | rfl
      · exact Or.inl ⟨m', hm, .same⟩
      · exact Or.inr rfl
  | saveSending =>
      rcases LocalStore.mem_saveMessage.mp hm with ⟨hm, _⟩ | rfl
      · exact Or.inl ⟨m', hm, .same⟩
      · exact Or.inr rfl
  | markSent =>
      obtain ⟨m, hmem, he | ⟨hid, he⟩⟩ := updateStatus_rows hm
      · exact Or.inl ⟨m, hmem, he ▸ .same⟩
      · subst he
        exact Or.inl ⟨m, hmem, .sent rfl hid⟩
  | giveUp =>
      obtain ⟨m, hmem, he | ⟨hid, he⟩⟩ := updateStatus_rows hm
      · exact Or.inl ⟨m, hmem, he ▸ .same⟩
      · subst he
        exact Or.inl ⟨m, hmem, .failed rfl hid⟩
  | _ => exact Or.inl (hkept rfl)

theorem OuterStep.kept (h : OuterStep c env st outer out) (hm : m ∈ st.messages) :
    (∃ m' ∈ out.store.messages, m.SameRow m')
      ∨ ∃ msg, outer.saves c env = some msg ∧ m.id = msg.id := by
  rcases h.messages with he | ⟨id, status, he⟩ | ⟨msg, hmsg, he⟩ <;> rw [he]
  · exact Or.inl ⟨m, hm, .refl _⟩
  · exact Or.inl (updateStatus_kept hm)
  · exact (saveMessage_kept hm).imp_right (fun hid => ⟨msg, hmsg, hid⟩)

theorem OuterStep.chunks (h : OuterStep c env st outer out) :
    out.store.incomingChunks = st.incomingChunks := by
  cases h with
  | ends hst => exact hst.incomingChunks
  | compose hst => exact hst.incomingChunks
  | reserve hst => exact hst.incomingChunks
  | _ => rfl

end OuterStep

/-! ## Steps of a dialogue -/

namespace World

variable [Aead κ π] {cfg : Setup κ n} {w w' : World π n} {l : Label π n} {d : Fin n}
  {m m' : Message}

/-- A device saves this message for a call of its own. -/
def Saves (cfg : Setup κ n) (w : World π n) (d : Fin n) (m : Message) : Prop :=
  ∃ job ∈ w.jobs, job.dev = d ∧ job.task.rx = none
    ∧ ∃ env, job.task.outer.saves (cfg.device d) env = some m

/-- A device processes a packet it holds, and the packet brings this row. -/
def Brings (cfg : Setup κ n) (w : World π n) (d : Fin n) (m : Message) : Prop :=
  ∃ rx ∈ w.receiving d, ∃ pkt ∈ rx.run.queue, ∃ inner now,
    (cfg.device d).decryptPacket pkt.seq pkt.payload = some inner
      ∧ NewRow (cfg.device d) now (w.store d) inner pkt.seq m

/-- A row of a device after a step that keeps it. -/
def Restates (cfg : Setup κ n) (w : World π n) (d : Fin n) (m m' : Message) : Prop :=
  m.Restated (cfg.device d) (fun pkt => ∃ rx ∈ w.receiving d, pkt ∈ rx.run.queue)
    (fun o => ∃ job ∈ w.jobs, job.dev = d ∧ job.task.rx = none ∧ job.task.outer = o) m'

/-- **Where a row comes from.** -/
theorem row_step (h : StepCase cfg w l w') (hm : m' ∈ (w'.store d).messages) :
    (∃ m ∈ (w.store d).messages, w.Restates cfg d m m') ∨ w.Saves cfg d m'
      ∨ w.Brings cfg d m' := by
  cases store_step h d with
  | same hst => exact Or.inl ⟨m', hst ▸ hm, .same⟩
  | @outer job env out hjob hdev hrx _ hstep _ hst =>
      rw [hst] at hm
      rcases hstep.rows hm with ⟨m, hmem, hre⟩ | hs
      · refine Or.inl ⟨m, hmem, hre.mono (fun _ hf => hf.elim) ?_⟩
        rintro o rfl
        exact ⟨job, hjob, hdev, hrx, rfl⟩
      · exact Or.inr (Or.inl ⟨job, hjob, hdev, hrx, env, hs⟩)
  | move hrx hmove =>
      obtain ⟨env, _, _, hmv, _⟩ := hmove.move
      rcases hmv.rows hm with ⟨m, hmem, hre⟩ | ⟨pkt, hpkt, inner, hdec, hnew⟩
      · exact Or.inl ⟨m, hmem, hre.mono (fun pkt hq => ⟨_, hrx, hq⟩) (fun _ hf => hf.elim)⟩
      · exact Or.inr (Or.inr ⟨_, hrx, pkt, hpkt, inner, env.now, hdec, hnew⟩)
  | @fails rx pkt env inner e hrx hpkt hdec hproc =>
      have hm' : m' ∈ ((cfg.device d).processIncoming env.now (w.store d) inner
          pkt.seq).1.messages := by
        rw [hproc]
        exact hm
      rcases processIncoming_rows hm' with ⟨m, hmem, he | ⟨hst, he⟩⟩ | hnew
      · exact Or.inl ⟨m, hmem, he ▸ .same⟩
      · subst he
        exact Or.inl ⟨m, hmem, .read hst⟩
      · exact Or.inr (Or.inr ⟨rx, hrx, pkt, hpkt, inner, env.now, hdec, hnew⟩)

/-- **Where a row goes.** -/
theorem row_kept (h : StepCase cfg w l w') (hm : m ∈ (w.store d).messages) :
    (∃ m' ∈ (w'.store d).messages, m.SameRow m')
      ∨ (∃ m', (w.Saves cfg d m' ∨ w.Brings cfg d m') ∧ m.id = m'.id)
      ∨ ∃ job ∈ w.jobs, job.dev = d ∧ (∃ env, l = .localStep job.id env) ∧ ∃ rx ts,
          job.task.rx = some rx ∧ rx.run.point = .delete ts ∧ m.dialogue = cfg.key
            ∧ ∃ s ∈ ts, m.serverSeq = some s := by
  cases store_step h d with
  | same hst => exact Or.inl ⟨m, hst ▸ hm, .refl _⟩
  | @outer job env out hjob hdev hrx _ hstep _ hst =>
      rw [hst]
      refine (hstep.kept hm).imp_right ?_
      rintro ⟨msg, hmsg, hid⟩
      exact Or.inl ⟨msg, Or.inl ⟨job, hjob, hdev, hrx, env, hmsg⟩, hid⟩
  | move hrx hmove =>
      obtain ⟨env, _, _, hmv, _⟩ := hmove.move
      refine (hmv.kept hm).imp_right (Or.imp ?_ ?_)
      · rintro ⟨pkt, hpkt, inner, m', hdec, hnew, hid⟩
        exact ⟨m', Or.inr ⟨_, hrx, pkt, hpkt, inner, env.now, hdec, hnew⟩, hid⟩
      · rintro ⟨ts, hp, hd, hs⟩
        rcases hmove.label with hwaits | ⟨job, hjob, hdev, hjrx, hlabel⟩
        · rw [Receive.waits, hp] at hwaits
          cases hwaits
        · exact ⟨job, hjob, hdev, hlabel, _, ts, hjrx, hp, hd.trans (cfg.shared d), hs⟩
  | @fails rx pkt env inner e hrx hpkt hdec hproc =>
      have hkept : (∃ m' ∈ ((cfg.device d).processIncoming env.now (w.store d) inner
          pkt.seq).1.messages, m.SameRow m') ∨ ∃ m', NewRow (cfg.device d) env.now (w.store d) inner
            pkt.seq m' ∧ m.id = m'.id := processIncoming_kept hm
      rw [hproc] at hkept
      refine hkept.imp_right ?_
      rintro ⟨m', hnew, hid⟩
      exact Or.inl ⟨m', Or.inr ⟨rx, hrx, pkt, hpkt, inner, env.now, hdec, hnew⟩, hid⟩

/-- Where a buffered chunk comes from. -/
theorem chunk_step (h : StepCase cfg w l w') {row : ChunkRow}
    (hr : row ∈ (w'.store d).incomingChunks) :
    row ∈ (w.store d).incomingChunks ∨ ∃ rx ∈ w.receiving d, ∃ pkt ∈ rx.run.queue, ∃ inner,
      (cfg.device d).decryptPacket pkt.seq pkt.payload = some inner
        ∧ ∃ now transferId index total filename mimeType totalSize data,
          inner.content = .fileChunk transferId index total filename mimeType totalSize data
            ∧ row = (cfg.device d).chunkRow now inner transferId index total filename mimeType
              totalSize data := by
  cases store_step h d with
  | same hst => exact Or.inl (hst ▸ hr)
  | outer _ _ _ _ hstep _ hst =>
      rw [hst, hstep.chunks] at hr
      exact Or.inl hr
  | move hrx hmove =>
      obtain ⟨env, _, _, hmv, _⟩ := hmove.move
      refine (hmv.chunks hr).imp_right (fun ⟨pkt, hpkt, inner, hdec, hnew⟩ => ?_)
      exact ⟨_, hrx, pkt, hpkt, inner, hdec, env.now, hnew⟩
  | @fails rx pkt env inner e hrx hpkt hdec hproc =>
      have hr' : row ∈ ((cfg.device d).processIncoming env.now (w.store d) inner
          pkt.seq).1.incomingChunks := by
        rw [hproc]
        exact hr
      refine (processIncoming_chunks hr').imp_right (fun hnew => ?_)
      exact ⟨rx, hrx, pkt, hpkt, inner, hdec, env.now, hnew⟩

end World

end Paranoia
