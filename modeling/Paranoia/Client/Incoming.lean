import Paranoia.Crypto
import Paranoia.Client.LocalStore

/-!
# Processing one incoming packet

`processIncoming` turns a decrypted packet into changes of the local database. Its
five branches (read receipt, legacy delete, file header, file chunk, everything
else) trust what the packet says about itself: ids, transfer ids and the name of
the sender are taken from the plaintext.
-/

namespace Paranoia

/-- What a dialogue object of a client is made of, besides its database. -/
structure Client (κ : Type) where
  username : String
  key : DialogueKey
  keyring : List (DialogueKeyEntry κ)
  /-- The digest a topic's id is derived with. -/
  deriveTopicId : DialogueKey → String → String
  /-- The greatest buffer the allocator grants. -/
  allocLimit : Nat
  /-- How many reserve endpoints the transport has besides the main one. -/
  reserveUrls : Nat
  /-- The files a path names; `none` for what is not a regular file. -/
  readFile : String → Option (List UInt8)

namespace Client

variable {κ π : Type}

def partner (c : Client κ) : String := if c.key.a = c.username then c.key.b else c.key.a

def decryptPacket [Aead κ π] (c : Client κ) (seq : Nat) (data : π) : Option PacketInner :=
  (keyForSeq c.keyring seq).bind (fun key => Aead.decrypt key data)

/-- Characters with the Unicode property `White_Space`. -/
def isWhitespace (ch : Char) : Bool :=
  let n := ch.toNat
  (0x09 ≤ n && n ≤ 0x0D) || n == 0x20 || n == 0x85 || n == 0xA0 || n == 0x1680
    || (0x2000 ≤ n && n ≤ 0x200A) || n == 0x2028 || n == 0x2029 || n == 0x202F
    || n == 0x205F || n == 0x3000

/-- The id and the name of a topic; a blank name means the main thread. -/
def topicFieldsFromName (c : Client κ) (name : Option String) : Option String × Option String :=
  match name with
  | some n => if n.toList.all isWhitespace then (none, none)
      else (some (c.deriveTopicId c.key n), some n)
  | none => (none, none)

/-- The time a packet carries, or `now` when no calendar date has it. -/
def timestampOr (now millis : Int) : Int :=
  if -8334601228800000 ≤ millis ∧ millis ≤ 8210266876799999 then millis else now

end Client

def attachmentContent (kind : AttachmentKind) (file : FileAttachment) : MessageContent :=
  match kind with
  | .file => .file file
  | .image => .image file
  | .voice => .voice file
  | .video => .video file

/-- Forget what the sender's own device knows about where the file is. -/
def stripRemoteLocalAttachmentState (content : MessageContent) : MessageContent :=
  let strip (file : FileAttachment) : FileAttachment :=
    { file with
      cachePath := none
      downloaded := if file.data.isEmpty && 0 < file.size then false else file.downloaded }
  match content with
  | .file f => .file (strip f)
  | .image f => .image (strip f)
  | .voice f => .voice (strip f)
  | .video f => .video (strip f)
  | c => c

namespace Client

variable {κ π : Type}

/-- The message a file header is stored as. -/
def headerMessage (c : Client κ) (now : Int) (inner : PacketInner) (seq : Nat)
    (transferId : String) (kind : AttachmentKind) (filename mimeType : String)
    (totalSize chunks : Nat) (groupId : Option String) (bodyToSeq : Nat) : Message :=
  let topic := c.topicFieldsFromName inner.topicName
  { id := transferId
    dialogue := c.key
    sender := inner.sender
    content := attachmentContent kind
      { filename := filename
        mimeType := mimeType
        size := totalSize
        data := []
        transferId := some transferId
        cachePath := none
        chunkCount := chunks
        bodyFromSeq := if chunks = 0 then 0 else seq + 1
        bodyToSeq := if chunks = 0 then 0 else bodyToSeq
        downloaded := chunks = 0
        groupId := groupId
        ephemeralFileId := none
        ephemeralExpiresAt := none
        ephemeralFileKey := none }
    timestamp := timestampOr now inner.timestamp
    status := .delivered
    serverSeq := some seq
    topicId := topic.1
    topicName := topic.2 }

/-- The row a file chunk is buffered as. -/
def chunkRow (c : Client κ) (now : Int) (inner : PacketInner) (transferId : String)
    (index total : Nat) (filename mimeType : String) (totalSize : Nat) (data : List UInt8) :
    ChunkRow :=
  { transferId := transferId
    dialogue := c.key
    sender := inner.sender
    chunkIndex := index
    total := total
    filename := filename
    mimeType := mimeType
    totalSize := toI64 totalSize
    data := data
    timestamp := timestampOr now inner.timestamp }

/-- The message a file is stored as when its chunks arrived without a header. -/
def assembledMessage (c : Client κ) (seq : Nat) (transferId : String) (total : Nat)
    (assembled : AssembledFile) : Message :=
  { id := transferId
    dialogue := c.key
    sender := assembled.sender
    content := .file
      { filename := assembled.filename
        mimeType := assembled.mimeType
        size := assembled.data.length
        data := assembled.data
        transferId := some transferId
        cachePath := none
        chunkCount := total
        bodyFromSeq := 0
        bodyToSeq := 0
        downloaded := true
        groupId := none
        ephemeralFileId := none
        ephemeralExpiresAt := none
        ephemeralFileKey := none }
    timestamp := assembled.timestamp
    status := .delivered
    serverSeq := some seq
    topicId := none
    topicName := none }

/-- The message any other content is stored as. -/
def contentMessage (c : Client κ) (now : Int) (inner : PacketInner) (seq : Nat) : Message :=
  let topic := c.topicFieldsFromName inner.topicName
  { id := inner.id
    dialogue := c.key
    sender := inner.sender
    content := stripRemoteLocalAttachmentState inner.content
    timestamp := timestampOr now inner.timestamp
    status := .delivered
    serverSeq := some seq
    topicId := topic.1
    topicName := topic.2 }

/-- Buffer a chunk, and store its file if it was the last chunk missing. -/
def bufferChunk (c : Client κ) (st : LocalStore) (seq : Nat) (row : ChunkRow) :
    LocalStore × Except Fault (Option Message) :=
  match (st.saveChunk row).tryAssembleChunks c.allocLimit row.transferId row.dialogue with
  | (st, .error e) => (st, .error e)
  | (st, .ok none) => (st, .ok none)
  | (st, .ok (some assembled)) =>
      let msg := c.assembledMessage seq row.transferId row.total assembled
      (st.saveMessage msg, .ok (some msg))

/-- Handle a decrypted packet. The store is returned also on failure: what was written
before the failing step stays. -/
def processIncoming (c : Client κ) (now : Int) (st : LocalStore) (inner : PacketInner)
    (seq : Nat) : LocalStore × Except Fault (Option Message) :=
  if (st.getMessageBySeq c.key seq).isSome then (st, .ok none)
  else match inner.content with
    | .readReceipt upToSeq => (st.markReadUntil c.key upToSeq, .ok none)
    | .delete _ => (st, .ok none)
    | .fileHeader transferId kind filename mimeType totalSize chunks groupId =>
        match checkedAdd seq chunks with
        | none => (st, .error (.error "file range overflow"))
        | some bodyToSeq =>
            let msg := c.headerMessage now inner seq transferId kind filename mimeType totalSize
              chunks groupId bodyToSeq
            (st.saveMessage msg, .ok (some msg))
    | .fileChunk transferId index total filename mimeType totalSize data =>
        if (st.getMessageById c.key transferId).isSome then (st, .ok none)
        else c.bufferChunk st seq
          (c.chunkRow now inner transferId index total filename mimeType totalSize data)
    | _ =>
        let msg := c.contentMessage now inner seq
        (st.saveMessage msg, .ok (some msg))

/-- A buffered chunk either leaves the messages alone, or completes its file, which is then
saved as a message. -/
theorem bufferChunk_cases (c : Client κ) (st : LocalStore) (seq : Nat) (row : ChunkRow) :
    (st.completes c.allocLimit row = false ∧
      (c.bufferChunk st seq row).1 =
        ((st.saveChunk row).tryAssembleChunks c.allocLimit row.transferId row.dialogue).1) ∨
    (st.completes c.allocLimit row = true ∧ ∃ file,
      ((st.saveChunk row).tryAssembleChunks c.allocLimit row.transferId row.dialogue).2 =
        .ok (some file) ∧
      c.bufferChunk st seq row =
        (((st.saveChunk row).tryAssembleChunks c.allocLimit row.transferId row.dialogue).1.saveMessage
          (c.assembledMessage seq row.transferId row.total file),
          .ok (some (c.assembledMessage seq row.transferId row.total file)))) := by
  unfold bufferChunk
  cases hc : st.completes c.allocLimit row with
  | true =>
      obtain ⟨file, hfile⟩ := LocalStore.tryAssembleChunks_isSome.mpr hc
      refine Or.inr ⟨rfl, file, hfile, ?_⟩
      split <;> rename_i heq <;> rw [heq] at hfile ⊢ <;> simp at hfile
      rw [hfile]
  | false =>
      refine Or.inl ⟨rfl, ?_⟩
      split <;> rename_i heq
      · rw [heq]
      · rw [heq]
      · have : st.completes c.allocLimit row = true :=
          LocalStore.tryAssembleChunks_isSome.mp ⟨_, by rw [heq]⟩
        rw [hc] at this
        exact absurd this (by simp)

end Client

end Paranoia
