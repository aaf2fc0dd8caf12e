import Mathlib.Data.List.Sort
import Mathlib.Logic.Function.Basic
import Paranoia.Client.Outgoing

/-!
# Downloading an attachment

The body of a file stays on the server until somebody asks for it.
`writeRemoteAttachmentChunks` pulls it four packets at a time and streams it into a temporary
file that takes the place of the target at the end; `collectRemoteAttachmentChunks` gathers it
in memory. What the server answers to the pulls is a list, one answer each, and a call
whose answers have run out still waits. The disk and the memory take whatever they are given.
-/

namespace Paranoia

/-! ## The packets of a file -/

/-- `data` cut at the drawn sizes. -/
def randomChunks : List UInt8 → List Nat → List (List UInt8)
  | _, [] => []
  | data, size :: sizes => data.take size :: randomChunks (data.drop size) sizes

/-- A call of `send_chunked`: its arguments and what it draws. -/
structure FileTransfer where
  transferId : String
  kind : AttachmentKind
  filename : String
  mimeType : String
  data : List UInt8
  groupId : Option String
  timestamp : Int
  activeTopic : Option String
  chunkSizes : List Nat
  cut : isChunking data.length chunkSizes = true

namespace FileTransfer

def chunks (t : FileTransfer) : List (List UInt8) := randomChunks t.data t.chunkSizes

/-- `chunks.len() as u32`. -/
def total (t : FileTransfer) : Nat := t.chunks.length % 2 ^ 32

def header (t : FileTransfer) (username : String) : PacketInner :=
  { id := t.transferId
    timestamp := t.timestamp
    sender := username
    content := .fileHeader t.transferId t.kind t.filename t.mimeType t.data.length t.total
      t.groupId
    topicName := t.activeTopic }

def chunk (t : FileTransfer) (username : String) (i : Nat) (data : List UInt8) : PacketInner :=
  { id := t.transferId ++ ":" ++ toString i
    timestamp := t.timestamp
    sender := username
    content := .fileChunk t.transferId (i % 2 ^ 32) t.total t.filename t.mimeType t.data.length
      data
    topicName := none }

/-- The packets `send_chunked` pushes one after the other, each with its number. -/
def sendChunked (t : FileTransfer) (username : String) (headerSeq : Nat) :
    List (Nat × PacketInner) :=
  (headerSeq, t.header username) :: t.chunks.zipIdx.map (fun (data, i) =>
    ((if t.total = 0 then 0 else headerSeq + 1) + i, t.chunk username i data))

end FileTransfer

/-! ## The loop over the pulls -/

def filePullChunksPerRequest : Nat := 4

/-- What a download is asked for, as the header of the file announced it. -/
structure RemoteFile where
  headerSeq : Nat
  transferId : String
  chunkCount : Nat
  totalSize : Nat
deriving DecidableEq

/-- The variables of a running download; `out` is what the chunks are written to. -/
structure Progress (σ : Type) where
  expectedIndex : Nat
  afterSeq : Nat
  written : Nat
  out : σ
  /-- The ranges asked for so far. -/
  pulls : List (Nat × Nat)
deriving DecidableEq

/-- The server's answer to a pull. -/
abbrev PullAnswer (π : Type) := Except Fault (List (RawPacket π))

namespace RemoteFile

variable {κ π σ : Type} [Aead κ π] (c : Client κ) (f : RemoteFile)
  (append : σ → List UInt8 → σ)

/-- Write the next chunk, if the packet is it. -/
def takePacket (st : Progress σ) (pkt : RawPacket π) : Except Fault (Progress σ) :=
  match c.decryptPacket pkt.seq pkt.payload with
  | none => .error (.error "decrypt")
  | some inner =>
      match inner.content with
      | .fileChunk transferId index total _ _ totalSize data =>
          if transferId = f.transferId ∧ total = f.chunkCount ∧ index = st.expectedIndex
              ∧ totalSize = f.totalSize then
            match checkedAdd st.written data.length with
            | none => .error (.error "attachment_bad_size")
            | some written => .ok
                { st with
                  expectedIndex := st.expectedIndex + 1
                  afterSeq := pkt.seq
                  written := written
                  out := append st.out data }
          else .error (.error "attachment_bad_chunk")
      | _ => .error (.error "attachment_bad_chunk")

/-- Take the packets of an answer in the order of their numbers. -/
def takeBatch (batchEnd : Nat) (st : Progress σ) (packets : List (RawPacket π)) :
    Except Fault (Progress σ) :=
  if packets.length = batchEnd - st.expectedIndex then
    (packets.insertionSort (fun p q => p.seq ≤ q.seq)).foldlM (f.takePacket c append) st
  else .error (.error "attachment_incomplete")

/-- The index after the last chunk of the coming request. -/
def batchEnd (st : Progress σ) : Nat :=
  min (min (st.expectedIndex + filePullChunksPerRequest) (2 ^ 32 - 1)) f.chunkCount

/-- Pull until no chunk is missing; none while an answer is. -/
def pullChunks : List (PullAnswer π) → Progress σ → Option (Except Fault (Progress σ))
  | answers, st =>
      if f.chunkCount ≤ st.expectedIndex then some (.ok st)
      else match checkedAdd f.headerSeq (f.batchEnd st) with
        | none => some (.error (.error "file range overflow"))
        | some toSeq =>
            match answers with
            | [] => none
            | .error e :: _ => some (.error e)
            | .ok packets :: answers =>
                match f.takeBatch c append (f.batchEnd st)
                    { st with pulls := st.pulls ++ [(st.afterSeq, toSeq)] } packets with
                | .error e => some (.error e)
                | .ok st => pullChunks answers st

/-- A download that has not pulled anything yet. -/
def begin (out : σ) : Progress σ :=
  { expectedIndex := 0
    afterSeq := f.headerSeq
    written := 0
    out := out
    pulls := [] }

/-! ## Into memory -/

def collectRemoteAttachmentChunks (answers : List (PullAnswer π)) :
    Option (Except Fault (List UInt8)) :=
  (f.pullChunks c (· ++ ·) answers (f.begin [])).map (fun result =>
    match result with
    | .error e => .error e
    | .ok st =>
        if st.written = f.totalSize then .ok st.out
        else .error (.error "attachment_bad_size"))

end RemoteFile

/-! ## Onto the disk -/

/-- A directory and a name in it. -/
structure OutputPath where
  parent : String
  fileName : String
deriving DecidableEq

/-- A unique path beside the target. -/
def OutputPath.temporaryOutputPath (path : OutputPath) (uuid : String) : OutputPath :=
  { path with fileName := "." ++ path.fileName ++ "." ++ uuid ++ ".part" }

/-- The files of a disk. -/
abbrev Files := OutputPath → Option (List UInt8)

namespace Files

def create (files : Files) (path : OutputPath) : Files := Function.update files path (some [])

def writeAll (path : OutputPath) (files : Files) (data : List UInt8) : Files :=
  Function.update files path ((files path).map (· ++ data))

def removeFile (files : Files) (path : OutputPath) : Files := Function.update files path none

/-- One rename, over whatever is there. -/
def replaceFile (files : Files) (temp target : OutputPath) : Files :=
  Files.removeFile (Function.update files target (files temp)) temp

end Files

namespace RemoteFile

variable {κ π : Type} [Aead κ π] (c : Client κ) (f : RemoteFile)

def writeRemoteAttachmentChunks (files : Files) (path : OutputPath) (uuid : String)
    (answers : List (PullAnswer π)) : Option (Files × Except Fault Unit) :=
  let temp := path.temporaryOutputPath uuid
  (f.pullChunks c (Files.writeAll temp) answers (f.begin (files.create temp))).map (fun result =>
    match result with
    -- only the temporary file was touched, and it goes
    | .error e => (files.removeFile temp, .error e)
    | .ok st =>
        if st.written = f.totalSize then (st.out.replaceFile temp path, .ok ())
        else (st.out.removeFile temp, .error (.error "attachment_bad_size")))

end RemoteFile

end Paranoia
