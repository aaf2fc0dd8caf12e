import Mathlib.Data.List.Sort
import Paranoia.Lib.Table
import Paranoia.Types

/-!
# The local database of a client

One SQLite file per account, holding every dialogue of that account. Each
function below is one method of the store: the statements it runs, in order,
against tables whose primary keys are part of their types. A method that can
fail returns the database next to its result, because the statements before the
failing one have already been committed.

Sequence numbers are `u64` in the client and `i64` in the database. Columns that
are only compared for equality keep the `u64`; the two counters keep what SQLite
stores, since `MAX`, `+ 1` and a read back see the signed value.
-/

namespace Paranoia

/-- Why a client operation stops. -/
inductive Fault where
  /-- An error the code raises itself. -/
  | error (msg : String)
  /-- A column holds a value of another type than the one read. -/
  | columnType
  /-- A request did not get a usable answer. -/
  | transport (msg : String)
  /-- The process panics or aborts. -/
  | panic
deriving DecidableEq

/-- An integer expression of SQLite: an `i64`, or the floating-point number it
turns into, above every `i64`, once a sum leaves the range. -/
inductive SqlInt where
  | int (v : Int)
  | real
deriving DecidableEq

namespace SqlInt

/-- `e + 1`. -/
def succ : SqlInt → SqlInt
  | int v => if v + 1 < (i64Size : Nat) then int (v + 1) else real
  | real => real

/-- `MAX(e, f)`. -/
def max : SqlInt → SqlInt → SqlInt
  | int v, int w => int (Max.max v w)
  | _, _ => real

/-- Read the column as an `i64`, which fails on a floating-point number. -/
def read : SqlInt → Except Fault Int
  | int v => .ok v
  | real => .error .columnType

/-- Read `e - 1` as an `i64`. -/
def readPred : SqlInt → Except Fault Int
  | int v => if -(i64Size : Nat) ≤ v - 1 then .ok (v - 1) else .error .columnType
  | real => .error .columnType

end SqlInt

/-- A row of `dialogue_state`. -/
structure DialogueState where
  lastPulledSeq : Int
  nextSendSeq : SqlInt
deriving DecidableEq

/-- A row of `incoming_chunks`. -/
structure ChunkRow where
  transferId : String
  dialogue : DialogueKey
  sender : String
  chunkIndex : Nat
  total : Nat
  filename : String
  mimeType : String
  totalSize : Int
  data : List UInt8
  timestamp : Int
deriving DecidableEq

/-- The primary key of `incoming_chunks`, which names no dialogue. -/
def ChunkRow.key (r : ChunkRow) : String × Nat := (r.transferId, r.chunkIndex)

/-- A row of `outbound_transfers`: the journal of an unfinished file transfer. -/
structure OutboundTransfer where
  transferId : String
  dialogue : DialogueKey
  headerSeq : Nat
  chunkCount : Nat
  chunkSizes : List Nat
  cachePath : String
  filename : String
  mimeType : String
  kind : AttachmentKind
  totalSize : Nat
  groupId : Option String
  topicName : Option String
  timestamp : Int
  attempts : Nat
deriving DecidableEq

structure LocalStore where
  messages : Table Message Message.id
  dialogueState : DialogueKey → Option DialogueState
  incomingChunks : Table ChunkRow ChunkRow.key
  outboundTransfers : Table OutboundTransfer OutboundTransfer.transferId

/-- What a finished chunk assembly yields. -/
structure AssembledFile where
  sender : String
  filename : String
  mimeType : String
  data : List UInt8
  timestamp : Int
deriving DecidableEq

namespace LocalStore

/-- A freshly created database. -/
def empty : LocalStore where
  messages := Table.empty
  dialogueState := fun _ => none
  incomingChunks := Table.empty
  outboundTransfers := Table.empty

/-! ## Sequence numbers -/

/-- Write one row of `dialogue_state`. -/
def putState (st : LocalStore) (dialogue : DialogueKey) (s : DialogueState) : LocalStore :=
  { st with dialogueState := fun k => if k = dialogue then some s else st.dialogueState k }

/-- Issue the next outgoing sequence number and advance the counter. -/
def nextSendSeq (st : LocalStore) (dialogue : DialogueKey) : LocalStore × Except Fault Nat :=
  let s : DialogueState :=
    match st.dialogueState dialogue with
    | none => ⟨0, .int 2⟩
    | some s => { s with nextSendSeq := s.nextSendSeq.succ }
  (st.putState dialogue s, s.nextSendSeq.readPred.map toU64)

/-- Reserve `count` consecutive outgoing sequence numbers; the first one is returned. -/
def reserveSendSeqRange (st : LocalStore) (dialogue : DialogueKey) (count : Nat) :
    LocalStore × Except Fault Nat :=
  if count = 0 then (st, .error (.error "empty seq range"))
  else
    let s : DialogueState := (st.dialogueState dialogue).getD ⟨0, .int 1⟩
    let st := st.putState dialogue s
    match s.nextSendSeq.read with
    | .error e => (st, .error e)
    | .ok start =>
        match checkedAdd (toU64 start) count with
        | none => (st, .error (.error "seq range overflow"))
        | some endNext =>
            (st.putState dialogue { s with nextSendSeq := .int (toI64 endNext) },
              .ok (toU64 start))

/-- The cursor: everything up to it has been dealt with by `receive`. -/
def getLastPulledSeq (st : LocalStore) (dialogue : DialogueKey) : Nat :=
  match st.dialogueState dialogue with
  | none => 0
  | some s => toU64 s.lastPulledSeq

/-- Raise the cursor to `seq` and the outgoing counter above it. -/
def setLastPulledSeq (st : LocalStore) (dialogue : DialogueKey) (seq : Nat) : LocalStore :=
  let excluded := toI64 seq
  st.putState dialogue <|
    match st.dialogueState dialogue with
    | none => ⟨excluded, (SqlInt.int excluded).succ⟩
    | some s => ⟨max s.lastPulledSeq excluded, s.nextSendSeq.max (SqlInt.int excluded).succ⟩

/-! ## Messages -/

/-- Insert a message; a message with the same id, of any dialogue, is deleted first. -/
def saveMessage (st : LocalStore) (msg : Message) : LocalStore :=
  { st with messages := st.messages.insertOrReplace msg }

def updateStatus (st : LocalStore) (messageId : MessageId) (status : MessageStatus) :
    LocalStore :=
  { st with
    messages := st.messages.updateWhere (fun m => m.id = messageId)
      (fun m => { m with status := status }) (fun _ => rfl) }

/-- Is the message's place in `dialogue` the one `seq` names? -/
def isAt (dialogue : DialogueKey) (seq : Nat) (m : Message) : Bool :=
  m.dialogue = dialogue && m.serverSeq = some seq

/-- The id of the first message stored at `seq`. -/
def getMessageBySeq (st : LocalStore) (dialogue : DialogueKey) (seq : Nat) : Option MessageId :=
  (st.messages.find? (isAt dialogue seq)).map Message.id

def getMessageById (st : LocalStore) (dialogue : DialogueKey) (messageId : MessageId) :
    Option Message :=
  st.messages.find? (fun m => m.dialogue = dialogue && m.id = messageId)

/-- Rows a read receipt up to `upToSeq` selects: the comparison is the signed one, and
the sender is not part of it. -/
def readUntil (dialogue : DialogueKey) (upToSeq : Nat) (m : Message) : Bool :=
  m.dialogue = dialogue
    && (m.serverSeq.any (fun s => decide (toI64 s ≤ toI64 upToSeq)))
    && (m.status = .sent || m.status = .delivered)

def markReadUntil (st : LocalStore) (dialogue : DialogueKey) (upToSeq : Nat) : LocalStore :=
  { st with
    messages := st.messages.updateWhere (readUntil dialogue upToSeq)
      (fun m => { m with status := .read }) (fun _ => rfl) }

/-- Rows of `sender` that a read position `upToSeq` of the other party selects. -/
def outgoingReadUntil (dialogue : DialogueKey) (sender : String) (upToSeq : Nat) (m : Message) :
    Bool :=
  m.sender = sender && readUntil dialogue upToSeq m

def markOutgoingReadUntil (st : LocalStore) (dialogue : DialogueKey) (sender : String)
    (upToSeq : Nat) : LocalStore :=
  { st with
    messages := st.messages.updateWhere (outgoingReadUntil dialogue sender upToSeq)
      (fun m => { m with status := .read }) (fun _ => rfl) }

/-- The number and the status of the latest placed message of `sender`, by the signed order. -/
def latestOutgoingStatus (st : LocalStore) (dialogue : DialogueKey) (sender : String) :
    Option (Nat × MessageStatus) :=
  ((st.messages.rows.filterMap (fun m =>
      if m.dialogue = dialogue ∧ m.sender = sender then m.serverSeq.map (fun s => (s, m.status))
      else none)).insertionSort (fun a b => toI64 b.1 ≤ toI64 a.1)).head?

/-- The sequence numbers of the dialogue's messages the server has confirmed. -/
def getDeliveredServerSeqs (st : LocalStore) (dialogue : DialogueKey) : List Nat :=
  (st.messages.rows.filter (fun m =>
    m.dialogue = dialogue && (m.status = .delivered || m.status = .read))).filterMap
      Message.serverSeq

def deleteMessagesBySeqs (st : LocalStore) (dialogue : DialogueKey) (seqs : List Nat) :
    LocalStore :=
  { st with
    messages := st.messages.deleteWhere (fun m =>
      m.dialogue = dialogue && m.serverSeq.any (fun s => seqs.contains s)) }

/-! ## Outbound transfers -/

def insertOutbound (st : LocalStore) (t : OutboundTransfer) : LocalStore :=
  { st with outboundTransfers := st.outboundTransfers.insertOrReplace t }

def deleteOutbound (st : LocalStore) (transferId : String) : LocalStore :=
  { st with
    outboundTransfers :=
      st.outboundTransfers.deleteWhere (fun t => t.transferId = transferId) }

/-- Count one more resume attempt; the new count is returned, `0` for an unknown transfer. -/
def bumpOutboundAttempts (st : LocalStore) (transferId : String) : LocalStore × Nat :=
  let table := st.outboundTransfers.updateWhere (fun t => t.transferId = transferId)
    (fun t => { t with attempts := t.attempts + 1 }) (fun _ => rfl)
  ({ st with outboundTransfers := table },
    ((table.find? (fun t => t.transferId = transferId)).map OutboundTransfer.attempts).getD 0)

/-! ## Chunk assembly -/

/-- Buffer one received chunk, unless one with that transfer and index is buffered
already, in whatever dialogue. -/
def saveChunk (st : LocalStore) (row : ChunkRow) : LocalStore :=
  { st with incomingChunks := st.incomingChunks.insertOrIgnore row }

/-- The buffered chunks of a transfer. -/
def chunksOf (st : LocalStore) (transferId : String) (dialogue : DialogueKey) :
    List ChunkRow :=
  st.incomingChunks.rows.filter (fun r => r.transferId = transferId && r.dialogue = dialogue)

/-- `MAX` over a text column. -/
def maxText (s : String) (ss : List String) : String :=
  ss.foldl (fun m t => if m < t then t else m) s

/-- If every chunk of the transfer is buffered, empty its buffer and return the file.
`allocLimit` is the greatest buffer the allocator grants; a greater one ends the process. -/
def tryAssembleChunks (st : LocalStore) (allocLimit : Nat) (transferId : String)
    (dialogue : DialogueKey) : LocalStore × Except Fault (Option AssembledFile) :=
  match st.chunksOf transferId dialogue with
  | [] => (st, .error .columnType) -- the aggregates over no rows are NULL
  | r :: rs =>
      if (r :: rs).length < (rs.map ChunkRow.total).foldl max r.total then (st, .ok none)
      else if allocLimit < toU64 ((rs.map ChunkRow.totalSize).foldl max r.totalSize) then
        (st, .error .panic)
      else
        ({ st with
            incomingChunks := st.incomingChunks.deleteWhere
              (fun c => c.transferId = transferId && c.dialogue = dialogue) },
          .ok (some
            { sender := maxText r.sender (rs.map ChunkRow.sender)
              filename := maxText r.filename (rs.map ChunkRow.filename)
              mimeType := maxText r.mimeType (rs.map ChunkRow.mimeType)
              data := (((r :: rs).insertionSort
                (fun x y => x.chunkIndex ≤ y.chunkIndex)).map ChunkRow.data).flatten
              timestamp := (rs.map ChunkRow.timestamp).foldl min r.timestamp }))

/-! ## What the statements leave -/

variable {st : LocalStore} {dialogue dialogue' : DialogueKey} {m msg : Message}

@[simp] theorem putState_messages (s : DialogueState) :
    (st.putState dialogue s).messages = st.messages := rfl

@[simp] theorem putState_incomingChunks (s : DialogueState) :
    (st.putState dialogue s).incomingChunks = st.incomingChunks := rfl

@[simp] theorem putState_outboundTransfers (s : DialogueState) :
    (st.putState dialogue s).outboundTransfers = st.outboundTransfers := rfl

@[simp] theorem putState_dialogueState_self (s : DialogueState) :
    (st.putState dialogue s).dialogueState dialogue = some s := by
  simp [putState]

theorem putState_dialogueState_of_ne (s : DialogueState) (h : dialogue' ≠ dialogue) :
    (st.putState dialogue s).dialogueState dialogue' = st.dialogueState dialogue' := by
  simp [putState, h]

/-- The later write of a row is the one that counts. -/
@[simp] theorem putState_putState (s s' : DialogueState) :
    (st.putState dialogue s).putState dialogue s' = st.putState dialogue s' := by
  simp only [putState]
  congr 1
  funext k
  split <;> rfl

@[simp] theorem nextSendSeq_messages :
    (st.nextSendSeq dialogue).1.messages = st.messages := rfl

@[simp] theorem nextSendSeq_incomingChunks :
    (st.nextSendSeq dialogue).1.incomingChunks = st.incomingChunks := rfl

@[simp] theorem nextSendSeq_outboundTransfers :
    (st.nextSendSeq dialogue).1.outboundTransfers = st.outboundTransfers := rfl

/-- Issuing a number does not move the cursor. -/
@[simp] theorem nextSendSeq_getLastPulledSeq :
    (st.nextSendSeq dialogue).1.getLastPulledSeq dialogue = st.getLastPulledSeq dialogue := by
  unfold nextSendSeq getLastPulledSeq
  rw [putState_dialogueState_self]
  cases st.dialogueState dialogue <;> rfl

/-- What `reserveSendSeqRange` leaves is the old database up to one row of `dialogue_state`. -/
theorem reserveSendSeqRange_store (st : LocalStore) (dialogue : DialogueKey) (count : Nat) :
    (st.reserveSendSeqRange dialogue count).1 = st ∨
      ∃ s : DialogueState, (st.reserveSendSeqRange dialogue count).1 = st.putState dialogue s
        ∧ s.lastPulledSeq = ((st.dialogueState dialogue).getD ⟨0, .int 1⟩).lastPulledSeq := by
  unfold reserveSendSeqRange
  split
  · exact Or.inl rfl
  · dsimp only
    split
    · exact Or.inr ⟨_, rfl, rfl⟩
    · split
      · exact Or.inr ⟨_, rfl, rfl⟩
      · exact Or.inr ⟨_, putState_putState _ _, rfl⟩

/-- A reserved range is one of `u64`s. -/
theorem reserveSendSeqRange_bound {st st' : LocalStore} {count start : Nat}
    (h : st.reserveSendSeqRange dialogue count = (st', .ok start)) : start + count < u64Size := by
  unfold reserveSendSeqRange at h
  split at h
  · cases h
  · dsimp only at h
    split at h
    · cases h
    · split at h
      · cases h
      · rename_i hadd
        cases h
        obtain ⟨rfl, hlt⟩ := checkedAdd_eq_some.mp hadd
        exact hlt

@[simp] theorem reserveSendSeqRange_messages {count : Nat} :
    (st.reserveSendSeqRange dialogue count).1.messages = st.messages := by
  rcases reserveSendSeqRange_store st dialogue count with h | ⟨s, h, _⟩ <;> rw [h]
  rfl

@[simp] theorem reserveSendSeqRange_incomingChunks {count : Nat} :
    (st.reserveSendSeqRange dialogue count).1.incomingChunks = st.incomingChunks := by
  rcases reserveSendSeqRange_store st dialogue count with h | ⟨s, h, _⟩ <;> rw [h]
  rfl

@[simp] theorem reserveSendSeqRange_outboundTransfers {count : Nat} :
    (st.reserveSendSeqRange dialogue count).1.outboundTransfers = st.outboundTransfers := by
  rcases reserveSendSeqRange_store st dialogue count with h | ⟨s, h, _⟩ <;> rw [h]
  rfl

/-- Reserving a range does not move the cursor. -/
@[simp] theorem reserveSendSeqRange_getLastPulledSeq {count : Nat} :
    (st.reserveSendSeqRange dialogue count).1.getLastPulledSeq dialogue =
      st.getLastPulledSeq dialogue := by
  rcases reserveSendSeqRange_store st dialogue count with h | ⟨s, h, hs⟩
  · rw [h]
  · unfold getLastPulledSeq
    rw [h, putState_dialogueState_self]
    cases hd : st.dialogueState dialogue with
    | none =>
        rw [hd] at hs
        dsimp only
        rw [hs]
        rfl
    | some s' =>
        rw [hd] at hs
        dsimp only
        rw [hs]
        rfl

/-- The cursor is a matter of `dialogue_state` alone. -/
theorem getLastPulledSeq_congr {st' : LocalStore}
    (h : st'.dialogueState dialogue = st.dialogueState dialogue) :
    st'.getLastPulledSeq dialogue = st.getLastPulledSeq dialogue := by
  unfold getLastPulledSeq
  rw [h]

@[simp] theorem setLastPulledSeq_messages {seq : Nat} :
    (st.setLastPulledSeq dialogue seq).messages = st.messages := rfl

@[simp] theorem setLastPulledSeq_incomingChunks {seq : Nat} :
    (st.setLastPulledSeq dialogue seq).incomingChunks = st.incomingChunks := rfl

@[simp] theorem setLastPulledSeq_outboundTransfers {seq : Nat} :
    (st.setLastPulledSeq dialogue seq).outboundTransfers = st.outboundTransfers := rfl

/-- The cursor stays where it was or moves to at most the number written. -/
theorem getLastPulledSeq_setLastPulledSeq (st : LocalStore) (dialogue : DialogueKey) (seq : Nat) :
    (st.setLastPulledSeq dialogue seq).getLastPulledSeq dialogue = st.getLastPulledSeq dialogue
      ∨ (st.setLastPulledSeq dialogue seq).getLastPulledSeq dialogue ≤ seq := by
  unfold setLastPulledSeq getLastPulledSeq
  rw [putState_dialogueState_self]
  cases st.dialogueState dialogue with
  | none => exact Or.inr (toU64_toI64_le seq)
  | some s =>
      dsimp only
      rcases le_total s.lastPulledSeq (toI64 seq) with h | h
      · rw [max_eq_right h]
        exact Or.inr (toU64_toI64_le seq)
      · rw [max_eq_left h]
        exact Or.inl rfl

@[simp] theorem saveMessage_dialogueState :
    (st.saveMessage msg).dialogueState = st.dialogueState := rfl

@[simp] theorem saveMessage_incomingChunks :
    (st.saveMessage msg).incomingChunks = st.incomingChunks := rfl

@[simp] theorem saveMessage_outboundTransfers :
    (st.saveMessage msg).outboundTransfers = st.outboundTransfers := rfl

/-- Saving a message costs the row that had its id. -/
@[simp] theorem mem_saveMessage :
    m ∈ (st.saveMessage msg).messages ↔ (m ∈ st.messages ∧ m.id ≠ msg.id) ∨ m = msg :=
  Table.mem_insertOrReplace

theorem getMessageBySeq_isSome {seq : Nat} :
    (st.getMessageBySeq dialogue seq).isSome = true ↔
      ∃ m ∈ st.messages, m.dialogue = dialogue ∧ m.serverSeq = some seq := by
  unfold getMessageBySeq
  cases hf : st.messages.find? (isAt dialogue seq) with
  | none =>
      have := Table.find?_eq_none.mp hf
      simp only [Option.map_none, Option.isSome_none, Bool.false_eq_true, false_iff]
      rintro ⟨m, hm, hd, hs⟩
      simpa [isAt, hd, hs] using this m hm
  | some r =>
      obtain ⟨hr, hp⟩ := Table.find?_some hf
      simp only [Option.map_some, Option.isSome_some, true_iff]
      exact ⟨r, hr, by simpa [isAt] using hp⟩

theorem getMessageById_isSome {id : MessageId} :
    (st.getMessageById dialogue id).isSome = true ↔
      ∃ m ∈ st.messages, m.dialogue = dialogue ∧ m.id = id := by
  unfold getMessageById
  cases hf : st.messages.find? (fun m => m.dialogue = dialogue && m.id = id) with
  | none =>
      have := Table.find?_eq_none.mp hf
      simp only [Option.isSome_none, Bool.false_eq_true, false_iff]
      rintro ⟨m, hm, hd, hi⟩
      simpa [hd, hi] using this m hm
  | some r =>
      obtain ⟨hr, hp⟩ := Table.find?_some hf
      simp only [Option.isSome_some, true_iff]
      exact ⟨r, hr, by simpa using hp⟩

theorem readUntil_eq_true {bound : Nat} :
    readUntil dialogue bound m = true ↔ m.dialogue = dialogue ∧
      (∃ seq, m.serverSeq = some seq ∧ toI64 seq ≤ toI64 bound) ∧
      (m.status = .sent ∨ m.status = .delivered) := by
  unfold readUntil
  cases m.serverSeq <;> simp [and_assoc]

/-- A row after a read receipt is a row before it, with the status read if it was selected. -/
theorem mem_markReadUntil {bound : Nat} :
    m ∈ (st.markReadUntil dialogue bound).messages ↔
      ∃ r ∈ st.messages, m = if readUntil dialogue bound r then { r with status := .read } else r := by
  unfold markReadUntil
  rw [Table.mem_updateWhere]

theorem mem_markOutgoingReadUntil {sender : String} {bound : Nat} :
    m ∈ (st.markOutgoingReadUntil dialogue sender bound).messages ↔
      ∃ r ∈ st.messages, m =
        if outgoingReadUntil dialogue sender bound r then { r with status := .read } else r := by
  unfold markOutgoingReadUntil
  rw [Table.mem_updateWhere]

theorem mem_updateStatus {id : MessageId} {status : MessageStatus} :
    m ∈ (st.updateStatus id status).messages ↔
      ∃ r ∈ st.messages, m = if r.id = id then { r with status := status } else r := by
  unfold updateStatus
  rw [Table.mem_updateWhere]
  simp

theorem mem_getDeliveredServerSeqs {s : Nat} :
    s ∈ st.getDeliveredServerSeqs dialogue ↔ ∃ m ∈ st.messages, m.dialogue = dialogue ∧
      (m.status = .delivered ∨ m.status = .read) ∧ m.serverSeq = some s := by
  unfold getDeliveredServerSeqs
  rw [List.mem_filterMap]
  simp only [List.mem_filter, Bool.and_eq_true, Bool.or_eq_true, decide_eq_true_eq, and_assoc]
  rfl

theorem mem_deleteMessagesBySeqs {seqs : List Nat} :
    m ∈ (st.deleteMessagesBySeqs dialogue seqs).messages ↔
      m ∈ st.messages ∧ ¬ (m.dialogue = dialogue ∧ ∃ s ∈ seqs, m.serverSeq = some s) := by
  unfold deleteMessagesBySeqs
  rw [Table.mem_deleteWhere]
  refine and_congr_right (fun _ => ?_)
  cases hs : m.serverSeq with
  | none => simp
  | some s => by_cases hd : m.dialogue = dialogue <;> simp [hd]

@[simp] theorem saveChunk_messages {row : ChunkRow} :
    (st.saveChunk row).messages = st.messages := rfl

@[simp] theorem saveChunk_dialogueState {row : ChunkRow} :
    (st.saveChunk row).dialogueState = st.dialogueState := rfl

@[simp] theorem saveChunk_outboundTransfers {row : ChunkRow} :
    (st.saveChunk row).outboundTransfers = st.outboundTransfers := rfl

@[simp] theorem mem_saveChunk {row r : ChunkRow} :
    r ∈ (st.saveChunk row).incomingChunks ↔
      r ∈ st.incomingChunks ∨ (r = row ∧ ∀ q ∈ st.incomingChunks, q.key ≠ row.key) :=
  Table.mem_insertOrIgnore

theorem mem_chunksOf {transferId : String} {r : ChunkRow} :
    r ∈ st.chunksOf transferId dialogue ↔
      r ∈ st.incomingChunks ∧ r.transferId = transferId ∧ r.dialogue = dialogue := by
  simp [chunksOf, List.mem_filter, Table.mem_def]

/-! Assembling changes nothing but the buffer of its own transfer. -/

section Assemble

variable {limit : Nat} {transferId : String}

/-- The only database an assembly can leave besides the one it found. -/
theorem tryAssembleChunks_store (st : LocalStore) :
    (st.tryAssembleChunks limit transferId dialogue).1 = st ∨
      (st.tryAssembleChunks limit transferId dialogue).1 =
        { st with
          incomingChunks := st.incomingChunks.deleteWhere
            (fun c => c.transferId = transferId && c.dialogue = dialogue) } := by
  unfold tryAssembleChunks
  split
  · exact Or.inl rfl
  · split
    · exact Or.inl rfl
    · split
      · exact Or.inl rfl
      · exact Or.inr rfl

@[simp] theorem tryAssembleChunks_messages :
    (st.tryAssembleChunks limit transferId dialogue).1.messages = st.messages := by
  rcases tryAssembleChunks_store st with h | h <;> rw [h]

@[simp] theorem tryAssembleChunks_dialogueState :
    (st.tryAssembleChunks limit transferId dialogue).1.dialogueState = st.dialogueState := by
  rcases tryAssembleChunks_store st with h | h <;> rw [h]

@[simp] theorem tryAssembleChunks_outboundTransfers :
    (st.tryAssembleChunks limit transferId dialogue).1.outboundTransfers =
      st.outboundTransfers := by
  rcases tryAssembleChunks_store st with h | h <;> rw [h]

theorem mem_of_mem_tryAssembleChunks {r : ChunkRow}
    (h : r ∈ (st.tryAssembleChunks limit transferId dialogue).1.incomingChunks) :
    r ∈ st.incomingChunks := by
  rcases tryAssembleChunks_store st with h' | h' <;> rw [h'] at h
  · exact h
  · exact (Table.mem_deleteWhere.mp h).1

/-- Buffers of other transfers and of other dialogues are not touched. -/
theorem mem_tryAssembleChunks_iff {r : ChunkRow}
    (hr : ¬ (r.transferId = transferId ∧ r.dialogue = dialogue)) :
    r ∈ (st.tryAssembleChunks limit transferId dialogue).1.incomingChunks ↔
      r ∈ st.incomingChunks := by
  refine ⟨mem_of_mem_tryAssembleChunks, fun h => ?_⟩
  rcases tryAssembleChunks_store st with h' | h' <;> rw [h']
  · exact h
  · exact Table.mem_deleteWhere.mpr ⟨h, by simpa using hr⟩

end Assemble

/-- Would buffering `row` make the file it belongs to complete, and small enough to be put
together? -/
def completes (st : LocalStore) (limit : Nat) (row : ChunkRow) : Bool :=
  match (st.saveChunk row).chunksOf row.transferId row.dialogue with
  | [] => false
  | r :: rs =>
      decide ((rs.map ChunkRow.total).foldl max r.total ≤ (r :: rs).length)
        && decide (toU64 ((rs.map ChunkRow.totalSize).foldl max r.totalSize) ≤ limit)

theorem tryAssembleChunks_isSome {limit : Nat} {row : ChunkRow} :
    (∃ file, ((st.saveChunk row).tryAssembleChunks limit row.transferId row.dialogue).2 =
      .ok (some file)) ↔ st.completes limit row = true := by
  unfold tryAssembleChunks completes
  split
  · simp
  · split
    · simp only [Except.ok.injEq, reduceCtorEq, exists_false, false_iff, Bool.and_eq_true,
        decide_eq_true_eq]
      omega
    · split
      · simp only [reduceCtorEq, exists_false, false_iff, Bool.and_eq_true, decide_eq_true_eq]
        omega
      · simp only [Except.ok.injEq, Option.some.injEq, exists_eq', true_iff, Bool.and_eq_true,
          decide_eq_true_eq]
        omega

end LocalStore

end Paranoia
