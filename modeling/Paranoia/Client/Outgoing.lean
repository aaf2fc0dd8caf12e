import Paranoia.Server.Routes
import Paranoia.Client.Receive

/-!
# Sending, uploading and resuming

The calls of a client that push packets, each as a machine whose states are the
places where it waits or touches the database. `send` issues a number and pushes
one packet, and on a conflict receives and tries again with a new id and a new
number. An upload reserves a range, writes its message and a journal entry, and
pushes header and chunks one by one; `resume` goes through the journal and pushes
what the server does not hold yet. A `receive` may run inside any of them.
-/

namespace Paranoia

/-! ## Answers to a push -/

/-- Does `pattern` occur in `text`? -/
def containsText (text pattern : String) : Bool :=
  text.toList.tails.any (fun rest => pattern.toList.isPrefixOf rest)

def toAsciiLowercase (text : String) : String := String.ofList (text.toList.map Char.toLower)

/-- What the transport makes of the server's answer to a push. -/
def unwrapPushResponse (resp : ApiResponse) : Except String Unit :=
  if resp.success then .ok ()
  else
    let msg := toAsciiLowercase resp.message
    if containsText msg "duplicate" then .error "duplicate_seq"
    else if containsText msg "invalid seq" || containsText msg "expected seq" then
      .error "invalid_seq"
    else .error ("Push failed: " ++ resp.message)

/-- The error classes after which `send` tries again. -/
def isSeqConflict (err : String) : Bool :=
  let lower := toAsciiLowercase err
  ["duplicate seq", "duplicate_seq", "invalid seq", "invalid_seq", "expected seq"].any
    (containsText lower)

/-- The transport's result for a push: accepted, a conflict, or any other error. -/
inductive PushResult where
  | ok
  | conflict
  | failed
deriving DecidableEq

def pushResult (resp : ApiResponse) : PushResult :=
  match unwrapPushResponse resp with
  | .ok _ => .ok
  | .error err => if isSeqConflict err then .conflict else .failed

example : pushResult (fail "Duplicate seq 42") = .conflict := by decide

/-! ## Files cut into chunks -/

def chunkSizeMin : Nat := 1024

def chunkSizeMax : Nat := 192 * 1024

/-- Can `random_chunk_sizes` cut `remaining` bytes into these pieces? -/
def isChunking : Nat → List Nat → Bool
  | remaining, [] => remaining = 0
  | remaining, size :: sizes =>
      (0 < remaining)
        && (if remaining ≤ chunkSizeMin then size = remaining
            else chunkSizeMin ≤ size && size ≤ min chunkSizeMax remaining)
        && isChunking (remaining - size) sizes

/-- The bytes of chunk `i` of a file; `none` when the file ends before. -/
def chunkData (file : List UInt8) (sizes : List Nat) (i : Nat) : Option (List UInt8) :=
  (sizes[i]?).bind (fun size =>
    let data := (file.drop (sizes.take i).sum).take size
    if data.length = size then some data else none)

/-! ## The machines -/

/-- What a step draws from its surroundings. -/
structure Env where
  now : Int
  /-- `Uuid::new_v4`. -/
  freshId : String
  nonce : Nat
  activeTopic : Option String
  /-- `random_chunk_sizes`. -/
  chunkSizes : List Nat
deriving DecidableEq, Inhabited

/-- The arguments of `send`, with the time and the topic it runs under. -/
structure SendCall where
  content : MessageContent
  timestamp : Int
  topicName : Option String
deriving DecidableEq

/-- The arguments of `send_path_chunked`. -/
structure UploadCall where
  kind : AttachmentKind
  filename : String
  mimeType : String
  path : String
  groupId : Option String
deriving DecidableEq

/-- A push under way: the request and how many endpoints are left to try after this one. -/
structure Pushing (π : Type) where
  req : PushRequest π
  reserve : Nat
deriving DecidableEq

/-- Who pushes the packets of a transfer: the upload itself, or a resume on its given
attempt with the transfers it still has to look at. -/
inductive Mode where
  | upload
  | resume (attempts : Nat) (pending : List OutboundTransfer)
deriving DecidableEq

/-- Where a call stands outside of a nested `receive`. -/
inductive Outer (π : Type) where
  /-- The call is `receive` itself. -/
  | receive
  /-- `send` waits for the answer to `/notify`. -/
  | notify (call : SendCall)
  /-- `send` is about to issue a number; `tries` attempts are left. -/
  | compose (call : SendCall) (tries : Nat)
  | sending (call : SendCall) (tries : Nat) (id : MessageId) (p : Pushing π)
  | save (call : SendCall) (id : MessageId) (seq : Nat)
  | reserve (call : UploadCall)
  | saveSending (t : OutboundTransfer)
  | journal (t : OutboundTransfer)
  /-- Packet `i` of the transfer is next: the header for `0`, chunk `i - 1` otherwise.
  `present` are the numbers the server was found to hold. -/
  | transfer (mode : Mode) (t : OutboundTransfer) (present : List (Nat × Nat)) (i : Nat)
  | transferring (mode : Mode) (t : OutboundTransfer) (present : List (Nat × Nat)) (i : Nat)
      (p : Pushing π)
  /-- Every packet was pushed or found; the journal entry is deleted next. -/
  | uploaded (mode : Mode) (t : OutboundTransfer)
  | markSent (mode : Mode) (t : OutboundTransfer)
  /-- A resume gives up: the message becomes `Failed`, then the entry is deleted. -/
  | giveUp (pending : List OutboundTransfer) (t : OutboundTransfer)
  | forget (pending : List OutboundTransfer) (t : OutboundTransfer)
  /-- `resume` is about to read the journal. -/
  | list
  /-- `resume` takes up the next transfer. -/
  | pick (pending : List OutboundTransfer)
  /-- `resume` waits for a map page of the transfer's range. -/
  | existing (mode : Mode) (t : OutboundTransfer) (after : Nat) (present : List (Nat × Nat))
deriving DecidableEq

/-- A running `receive` and the length the history had when it began. -/
structure Rx (π : Type) where
  since : Nat
  run : Receive π
deriving DecidableEq

/-- A call of the client library: the `receive` running inside it, if one does, and where
the call itself stands. -/
structure Task (π : Type) where
  rx : Option (Rx π)
  outer : Outer π
deriving DecidableEq

/-- What a client step is remembered by. -/
inductive Notice (π : Type) where
  /-- A packet was encrypted for this place. -/
  | composed (seq : Nat) (inner : PacketInner) (payload : π)
  /-- A pull answered with these packets. -/
  | pulled (packets : List (RawPacket π))
  /-- A `receive` that began at `since` returned, with these numbers undecryptable. -/
  | received (since : Nat) (errors : List Nat)
  /-- A range was reserved for a transfer. -/
  | reserved (t : OutboundTransfer)
  /-- A transfer was marked `Sent`. -/
  | finished (t : OutboundTransfer)
deriving DecidableEq

/-- The effect of a client step. -/
structure Local (π : Type) where
  store : LocalStore
  /-- What the call becomes; `none` when it is over. -/
  task : Option (Task π)
  /-- Ids drawn, each with the number it was drawn for. -/
  issued : List (String × Nat) := []
  notices : List (Notice π) := []

namespace OutboundTransfer

/-- The plaintext of packet `i` of a transfer; `none` when the file cannot be read so far. -/
def packet {κ : Type} (c : Client κ) (t : OutboundTransfer) : Nat → Option PacketInner
  | 0 => some
      { id := t.transferId
        timestamp := t.timestamp
        sender := c.username
        content := .fileHeader t.transferId t.kind t.filename t.mimeType t.totalSize
          t.chunkSizes.length t.groupId
        topicName := t.topicName }
  | i + 1 => (c.readFile t.cachePath).bind (fun file =>
      (chunkData file t.chunkSizes i).map (fun data =>
        { id := t.transferId ++ ":" ++ toString i
          timestamp := t.timestamp
          sender := c.username
          content := .fileChunk t.transferId i t.chunkSizes.length t.filename t.mimeType
            t.totalSize data
          topicName := none }))

/-- The message an upload shows while it runs. -/
def message {κ : Type} (c : Client κ) (t : OutboundTransfer) : Message :=
  let topic := c.topicFieldsFromName t.topicName
  { id := t.transferId
    dialogue := t.dialogue
    sender := c.username
    content := attachmentContent t.kind
      { filename := t.filename
        mimeType := t.mimeType
        size := t.totalSize
        data := []
        transferId := some t.transferId
        cachePath := some t.cachePath
        chunkCount := t.chunkCount
        bodyFromSeq := if t.chunkCount = 0 then 0 else t.headerSeq + 1
        bodyToSeq := if t.chunkCount = 0 then 0 else t.headerSeq + t.chunkCount
        downloaded := true
        groupId := t.groupId
        ephemeralFileId := none
        ephemeralExpiresAt := none
        ephemeralFileKey := none }
    timestamp := t.timestamp
    status := .sending
    serverSeq := some t.headerSeq
    topicId := topic.1
    topicName := topic.2 }

end OutboundTransfer

/-- Attempts after which a resume gives a transfer up. -/
def resumeMaxAttempts : Nat := 10

namespace Client

variable {κ π : Type}

/-- Encrypt a packet for `seq` and sign the push; `none` when no key covers `seq`. -/
def pushRequest [Aead κ π] (c : Client κ) (nonce seq : Nat) (inner : PacketInner) :
    Option (PushRequest π) :=
  (keyForSeq c.keyring seq).map (fun key =>
    { sender := c.username
      recver := c.partner
      seq := seq
      payload := Aead.encrypt key nonce inner
      sig := c.username })

/-- The journal of the dialogue, by header number. -/
def listOutbound (c : Client κ) (st : LocalStore) : List OutboundTransfer :=
  (st.outboundTransfers.rows.filter (fun t => t.dialogue = c.key)).insertionSort
    (fun a b => a.headerSeq ≤ b.headerSeq)

/-- The message `send` stores once its packet is accepted. -/
def sentMessage (c : Client κ) (env : Env) (call : SendCall) (id : MessageId) (seq : Nat) :
    Message :=
  let topic := c.topicFieldsFromName env.activeTopic
  { id := id
    dialogue := c.key
    sender := c.username
    content := call.content
    timestamp := call.timestamp
    status := .sent
    serverSeq := some seq
    topicId := topic.1
    topicName := topic.2 }

end Client

namespace Task

variable {κ π : Type}

/-- The call goes on at `outer`. -/
def goOn (outer : Outer π) : Option (Task π) := some ⟨none, outer⟩

/-- Pushing the packets of a transfer stopped with an error. -/
def transferError (mode : Mode) (t : OutboundTransfer) : Option (Task π) :=
  match mode with
  | .upload => none
  | .resume attempts pending =>
      if resumeMaxAttempts ≤ attempts then goOn (.giveUp pending t) else goOn (.pick pending)

/-- After a transfer was dealt with. -/
def transferOver (mode : Mode) : Option (Task π) :=
  match mode with
  | .upload => none
  | .resume _ pending => goOn (.pick pending)

/-- The answer to a push arrives. On a conflict `send` receives before its next attempt. -/
def onPushResult (since : Nat) (outer : Outer π) (result : PushResult) :
    Option (Option (Task π)) :=
  match outer with
  | .sending call tries id p =>
      match result with
      | .ok => some (goOn (.save call id p.req.seq))
      | .conflict => some (some ⟨some ⟨since, Receive.start⟩, .compose call tries⟩)
      | .failed => some none
  | .transferring mode t present i _ =>
      match result with
      | .ok => some (goOn (.transfer mode t present (i + 1)))
      | _ => some (transferError mode t)
  | _ => none

/-- No usable answer arrives: the next endpoint is tried, if the failure allows it and there
is one, and the push fails otherwise. -/
def onTimeout (retry : Bool) (outer : Outer π) : Option (Option (Task π)) :=
  match outer with
  | .sending call tries id p =>
      match retry, p.reserve with
      | true, reserve + 1 => some (goOn (.sending call tries id { p with reserve := reserve }))
      | _, _ => some none
  | .transferring mode t present i p =>
      match retry, p.reserve with
      | true, reserve + 1 =>
          some (goOn (.transferring mode t present i { p with reserve := reserve }))
      | _, _ => some (transferError mode t)
  | _ => none

/-- The push a call waits for. -/
def request (outer : Outer π) : Option (PushRequest π) :=
  match outer with
  | .sending _ _ _ p => some p.req
  | .transferring _ _ _ _ p => some p.req
  | _ => none

/-- A map page of the range of a resumed transfer arrives, or none does. -/
def onExisting (outer : Outer π) (answer : Option MapResult) : Option (Option (Task π)) :=
  match outer, answer with
  | .existing mode _ _ _, none => some (transferOver mode)
  | .existing mode t _ present, some m =>
      let present := present ++ m.runs
      match m.truncated, Runs.lastEnd? m.runs with
      | true, some lastEnd =>
          if lastEnd < t.headerSeq + t.chunkCount then
            some (goOn (.existing mode t lastEnd present))
          else some (goOn (.transfer mode t present 0))
      | _, _ => some (goOn (.transfer mode t present 0))
  | _, _ => none

section Step

variable [Aead κ π]

/-- One step of a call outside of `receive`; none while it waits for an answer. -/
def outerStep (c : Client κ) (env : Env) (st : LocalStore) (outer : Outer π) :
    Option (Local π) :=
  match outer with
  | .compose _ 0 => some { store := st, task := none }
  | .compose call (tries + 1) =>
      match st.nextSendSeq c.key with
      | (st, .error _) => some { store := st, task := none }
      | (st, .ok seq) =>
          let inner : PacketInner :=
            { id := env.freshId
              timestamp := call.timestamp
              sender := c.username
              content := call.content
              topicName := call.topicName }
          match c.pushRequest env.nonce seq inner with
          | none => some { store := st, task := none }
          | some req => some
              { store := st
                task := goOn (.sending call tries env.freshId ⟨req, c.reserveUrls⟩)
                issued := [(env.freshId, seq)]
                notices := [.composed seq inner req.payload] }
  | .save call id seq => some
      { store := st.saveMessage (c.sentMessage env call id seq), task := none }
  | .reserve call =>
      match c.readFile call.path with
      | none => some { store := st, task := none }
      | some file =>
          if !isChunking file.length env.chunkSizes then none
          else if 2 ^ 32 ≤ env.chunkSizes.length then some { store := st, task := none }
          else match st.reserveSendSeqRange c.key (1 + env.chunkSizes.length) with
            | (st, .error _) => some { store := st, task := none }
            | (st, .ok headerSeq) =>
                let t : OutboundTransfer :=
                  { transferId := env.freshId
                    dialogue := c.key
                    headerSeq := headerSeq
                    chunkCount := env.chunkSizes.length
                    chunkSizes := env.chunkSizes
                    cachePath := call.path
                    filename := call.filename
                    mimeType := call.mimeType
                    kind := call.kind
                    totalSize := file.length
                    groupId := call.groupId
                    topicName := env.activeTopic
                    timestamp := env.now
                    attempts := 0 }
                some
                  { store := st
                    task := goOn (.saveSending t)
                    issued := [(env.freshId, headerSeq)]
                    notices := [.reserved t] }
  | .saveSending t => some { store := st.saveMessage (t.message c), task := goOn (.journal t) }
  | .journal t => some
      { store := st.insertOutbound t, task := goOn (.transfer .upload t [] 0) }
  | .transfer mode t present i =>
      if t.chunkSizes.length < i then some { store := st, task := goOn (.uploaded mode t) }
      else match t.packet c i with
        | none => some { store := st, task := transferError mode t }
        | some inner =>
            if Runs.Covers present (t.headerSeq + i) then
              some { store := st, task := goOn (.transfer mode t present (i + 1)) }
            else match c.pushRequest env.nonce (t.headerSeq + i) inner with
              | none => some { store := st, task := transferError mode t }
              | some req => some
                  { store := st
                    task := goOn (.transferring mode t present i ⟨req, c.reserveUrls⟩)
                    notices := [.composed (t.headerSeq + i) inner req.payload] }
  | .uploaded mode t => some
      { store := st.deleteOutbound t.transferId, task := goOn (.markSent mode t) }
  | .markSent mode t => some
      { store := st.updateStatus t.transferId .sent
        task := transferOver mode
        notices := [.finished t] }
  | .giveUp pending t => some
      { store := st.updateStatus t.transferId .failed, task := goOn (.forget pending t) }
  | .forget pending t => some
      { store := st.deleteOutbound t.transferId, task := goOn (.pick pending) }
  | .list => some { store := st, task := goOn (.pick (c.listOutbound st)) }
  | .pick [] => some { store := st, task := none }
  | .pick (t :: pending) =>
      if (c.readFile t.cachePath).isNone then some { store := st, task := goOn (.giveUp pending t) }
      else
        let (st, attempts) := st.bumpOutboundAttempts t.transferId
        some
          { store := st
            task := goOn (.existing (.resume attempts pending) t (t.headerSeq - 1) []) }
  | _ => none

/-- One step of a running `receive` inside a call. -/
def receiveStep (c : Client κ) (env : Env) (st : LocalStore) (rx : Rx π) (outer : Outer π) :
    Option (Local π) :=
  match rx.run.point with
  | .done => some
      { store := st
        task := match outer with
          | .receive => none
          | outer => some ⟨none, outer⟩
        notices := [.received rx.since rx.run.decryptErrors] }
  | _ =>
      match rx.run.localStep c env.now st with
      | none => none
      | some (st, .error _) => some { store := st, task := none }
      | some (st, .ok run) => some
          { store := st
            task := some ⟨some { rx with run := run }, outer⟩ }

/-- One step of a call that needs no answer. -/
def localStep (c : Client κ) (env : Env) (st : LocalStore) (task : Task π) : Option (Local π) :=
  match task.rx with
  | some rx => receiveStep c env st rx task.outer
  | none => outerStep c env st task.outer

end Step

end Task

end Paranoia
