import Paranoia.World

/-!
# The words properties are stated in

What a packet announces, what it is to be seen, and where a push may land without
being passed over; and the small dialogue that concrete runs take place in.
-/

namespace Paranoia

variable {κ π : Type} {n : Nat}

/-- Does the packet announce to the client a body that `seq` lies in? -/
def Client.announces [Aead κ π] (c : Client κ) (pkt : RawPacket π) (seq : Nat) : Bool :=
  match c.decryptPacket pkt.seq pkt.payload with
  | none => false
  | some inner =>
      match Receive.advanceTo pkt.seq inner.content with
      | some (_, some bodyEnd) => pkt.seq < seq && seq ≤ bodyEnd
      | _ => false

/-- Where the cursor of the client goes over this packet. -/
def Client.target [Aead κ π] (c : Client κ) (pkt : RawPacket π) : Nat :=
  match c.decryptPacket pkt.seq pkt.payload with
  | none => pkt.seq
  | some inner =>
      match Receive.advanceTo pkt.seq inner.content with
      | some (target, _) => target
      | none => pkt.seq

/-- Contents that are shown as a message of their own. -/
def MessageContent.isDisplayable : MessageContent → Bool
  | .readReceipt _ => false
  | .delete _ => false
  | .fileChunk .. => false
  | _ => true

/-- The id of the row the packet is stored as. -/
def PacketInner.rowId (inner : PacketInner) : MessageId :=
  match inner.content with
  | .fileHeader transferId .. => transferId
  | .fileChunk transferId .. => transferId
  | _ => inner.id

/-- The row says what the packet says: a header shows as the file it announces, the last chunk of
a file without a header as the file. -/
def Message.Shows (m : Message) (inner : PacketInner) : Prop :=
  m.id = inner.rowId ∧ m.sender = inner.sender ∧
    match inner.content with
    | .fileHeader transferId kind filename mimeType totalSize _ groupId =>
        ∃ file, m.content = attachmentContent kind file ∧ file.transferId = some transferId
          ∧ file.filename = filename ∧ file.mimeType = mimeType ∧ file.size = totalSize
          ∧ file.groupId = groupId
    | .fileChunk transferId .. => ∃ file, m.content = .file file ∧ file.transferId = some transferId
    | content => m.content = content ∨ m.content = stripRemoteLocalAttachmentState content

/-- The file a content of this kind is. -/
def MessageContent.attachment? : AttachmentKind → MessageContent → Option FileAttachment
  | .file, .file f => some f
  | .image, .image f => some f
  | .voice, .voice f => some f
  | .video, .video f => some f
  | _, _ => none

theorem MessageContent.attachment?_eq_some {kind : AttachmentKind} {content : MessageContent}
    {file : FileAttachment} :
    content.attachment? kind = some file ↔ content = attachmentContent kind file := by
  cases kind <;> cases content <;> simp [attachment?, attachmentContent]

instance (kind : AttachmentKind) (content : MessageContent) (p : FileAttachment → Prop)
    [DecidablePred p] : Decidable (∃ file, content = attachmentContent kind file ∧ p file) :=
  decidable_of_iff (∃ file ∈ content.attachment? kind, p file)
    (by simp only [Option.mem_def, MessageContent.attachment?_eq_some])

instance (m : Message) (inner : PacketInner) : Decidable (m.Shows inner) := by
  unfold Message.Shows
  refine @instDecidableAnd _ _ _ (@instDecidableAnd _ _ _ ?_)
  split
  · infer_instance
  · rename_i transferId _ _ _ _ _ _ _
    exact inferInstanceAs (Decidable (∃ file, m.content = attachmentContent .file file
      ∧ file.transferId = some transferId))
  · infer_instance

namespace World

/-- A device of the sender composed this packet, and its content is displayable. -/
def Displays [DecidableEq π] (cfg : Setup κ n) (w : World π n) (req : PushRequest π) : Bool :=
  (List.finRange n).any (fun d => (cfg.device d).username = req.sender
    && (w.notices d).any (fun
      | .composed seq inner payload =>
          seq = req.seq && payload = req.payload && inner.content.isDisplayable
      | _ => false))

/-- The `receive`s running on a device. -/
def receiving (w : World π n) (d : Fin n) : List (Rx π) :=
  (w.jobs.rows.filter (fun job => job.dev = d)).filterMap (fun job => job.task.rx)

/-- The cursor of a device. -/
def cursor (cfg : Setup κ n) (w : World π n) (d : Fin n) : Nat :=
  (w.store d).getLastPulledSeq cfg.key

end World

/-! ## A dialogue for concrete runs -/

namespace Sample

/-- A client of the dialogue of Alice and Bob. -/
def client (username : String) : Client Nat where
  username := username
  key := ⟨"alice", "bob"⟩
  keyring := [⟨1, 7⟩]
  deriveTopicId _ name := name
  allocLimit := 1000
  reserveUrls := 1
  readFile _ := some [1, 2, 3]

instance threeDevices : NeZero 3 := ⟨by decide⟩

/-- Device `0` is Alice's, device `1` Bob's, and device `2` is a second one of Alice's. -/
def setup : Setup Nat 3 where
  key := ⟨"alice", "bob"⟩
  ordered := by decide
  device d := client (if d = 1 then "bob" else "alice")
  shared _ := rfl
  member := by decide

/-- The surroundings of a step that draws `id`; a file of three bytes is one chunk. -/
def env (id : String) : Env where
  now := 0
  freshId := id
  nonce := 0
  activeTopic := none
  chunkSizes := [3]

def text (t : String) : Call := .send ⟨.text t, 0, none⟩

def file : Call := .upload ⟨.file, "f", "t", "p", none⟩

/-- Call `job` of `dev` sends a text without receiving first. -/
def sends (dev : Fin 3) (job : Nat) (id : String) : List (Label Sealed 3) :=
  [.start dev (text id), .notified job false, .localStep job (env id), .push job,
    .localStep job (env "")]

/-- A step that draws nothing, so many times. -/
def steps (job count : Nat) : List (Label Sealed 3) :=
  List.replicate count (.localStep job (env ""))

end Sample

end Paranoia
