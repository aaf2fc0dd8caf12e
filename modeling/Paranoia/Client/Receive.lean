import Mathlib.Data.List.Sort
import Paranoia.Lib.Runs
import Paranoia.Server.PacketStore
import Paranoia.Client.Incoming

/-!
# Receiving

`receive` collects the map of live sequence numbers page by page, pulls what lies
above its cursor in batches, hands each packet to `processIncoming`, and finally
raises the cursor to the greatest number the map reported and removes local
messages that are no longer live. Between any two of its steps other tasks and
other devices may run, so it is written as a machine: a `Point` says where a
running call stands, the request points wait for an answer, and `localStep` is
the code between two requests, one database access (or one packet) at a time.
-/

namespace Paranoia

/-- Most packets one pull asks for. -/
def receivePullBatch : Nat := 16

/-- Where a running `receive` stands. `todo` are the runs after the current one. -/
inductive Point (π : Type) where
  /-- The map page after `after` is requested. -/
  | map (after : Nat)
  /-- The server has scanned that page and will read its greatest number next. -/
  | scanned (runs : List (Nat × Nat)) (truncated : Bool)
  /-- All pages are there; the stored cursor comes next. -/
  | load
  /-- The batch that starts at `seq` in a run ending at `stop` is requested. -/
  | pull (seq stop : Nat) (todo : List (Nat × Nat))
  /-- The batch came back empty. -/
  | skip (batchEnd stop : Nat) (todo : List (Nat × Nat))
  /-- `pkt` is to be processed, then `queue`. -/
  | packet (pkt : RawPacket π) (queue : List (RawPacket π)) (batchEnd stop : Nat)
      (todo : List (Nat × Nat))
  /-- A packet is processed and the cursor moves to `target`; `own` is a message of the
  account itself that was found to have arrived. -/
  | advance (target : Nat) (own : Option MessageId) (queue : List (RawPacket π))
      (batchEnd stop : Nat) (todo : List (Nat × Nat))
  /-- The cursor moves to the end of the map. -/
  | bump
  /-- Local messages are compared with the map. -/
  | sweep
  /-- Those at `tombstones` are removed. -/
  | delete (tombstones : List Nat)
  | done
deriving DecidableEq

/-- The variables of a running `receive`. -/
structure Receive (π : Type) where
  allRuns : List (Nat × Nat)
  lastSeqTotal : Nat
  cursor : Nat
  messages : List Message
  /-- The packets that could not be decrypted; the code keeps their number. -/
  decryptErrors : List Nat
  point : Point π
deriving DecidableEq

/-- The binary search of a number in sorted runs: `size` runs from `base` on are left. -/
def searchRuns (runs : List (Nat × Nat)) (seq : Nat) : Nat → Nat → Nat → Bool
  | 0, base, _ => (runs[base]?).any (fun r => r.1 ≤ seq && seq ≤ r.2)
  | fuel + 1, base, size =>
      if size ≤ 1 then (runs[base]?).any (fun r => r.1 ≤ seq && seq ≤ r.2)
      else
        let half := size / 2
        let mid := base + half
        let above := (runs[mid]?).any (fun r => seq < r.1)
        searchRuns runs seq fuel (if above then base else mid) (size - half)

def seqInRuns (runs : List (Nat × Nat)) (seq : Nat) : Bool :=
  searchRuns runs seq runs.length 0 runs.length

namespace Receive

variable {κ π : Type}

/-- A `receive` at its first step. -/
def start : Receive π where
  allRuns := []
  lastSeqTotal := 0
  cursor := 0
  messages := []
  decryptErrors := []
  point := .map 0

/-- The last number of the batch that starts at `seq`. -/
def batchEnd (seq stop : Nat) : Nat := min (saturatingAdd seq (receivePullBatch - 1)) stop

/-- The head of the loop over the runs. -/
def nextRun (r : Receive π) : List (Nat × Nat) → Receive π
  | [] => { r with point := .bump }
  | (first, stop) :: todo =>
      if stop ≤ r.cursor then r.nextRun todo
      else if max first (saturatingAdd r.cursor 1) ≤ stop then
        { r with point := .pull (max first (saturatingAdd r.cursor 1)) stop todo }
      else r.nextRun todo

/-- The head of the loop over the batches of a run. -/
def nextBatch (r : Receive π) (seq stop : Nat) (todo : List (Nat × Nat)) : Receive π :=
  if seq ≤ stop then { r with point := .pull seq stop todo } else r.nextRun todo

/-- The head of the loop over the packets of a batch. -/
def nextPacket (r : Receive π) (queue : List (RawPacket π)) (batchEnd stop : Nat)
    (todo : List (Nat × Nat)) : Receive π :=
  match queue with
  | pkt :: queue => { r with point := .packet pkt queue batchEnd stop todo }
  | [] => r.nextBatch (max (saturatingAdd r.cursor 1) (saturatingAdd batchEnd 1)) stop todo

/-- A map page arrives. -/
def onMap (r : Receive π) (m : MapResult) : Receive π :=
  let r := { r with lastSeqTotal := max r.lastSeqTotal m.lastSeq }
  match Runs.lastEnd? m.runs with
  | none => { r with point := .load }
  | some lastEnd =>
      { r with
        allRuns := r.allRuns ++ m.runs
        point := if m.truncated then .map lastEnd else .load }

/-- A batch arrives. -/
def onPull (r : Receive π) (packets : List (RawPacket π)) (seq stop : Nat)
    (todo : List (Nat × Nat)) : Receive π :=
  match packets.insertionSort (fun a b => a.seq ≤ b.seq) with
  | [] => { r with point := .skip (batchEnd seq stop) stop todo }
  | pkt :: queue => { r with point := .packet pkt queue (batchEnd seq stop) stop todo }

/-- Where the cursor goes after this content, and where the body it announces ends. -/
def advanceTo (seq : Nat) (content : MessageContent) : Option (Nat × Option Nat) :=
  match content with
  | .fileHeader _ _ _ _ _ chunks _ =>
      (checkedAdd seq chunks).map (fun bodyEnd => (bodyEnd, if 0 < chunks then some bodyEnd else none))
  | _ => some (seq, none)

/-- Packets of the batch that belong to an announced body are passed over. -/
def dropSkipped (skipUntil : Option Nat) (queue : List (RawPacket π)) : List (RawPacket π) :=
  match skipUntil with
  | some until_ => queue.dropWhile (fun pkt => pkt.seq ≤ until_)
  | none => queue

section Step

variable [Aead κ π]

/-- Process one packet. -/
def onPacket (c : Client κ) (now : Int) (st : LocalStore) (r : Receive π) (pkt : RawPacket π)
    (queue : List (RawPacket π)) (batchEnd stop : Nat) (todo : List (Nat × Nat)) :
    LocalStore × Except Fault (Receive π) :=
  match c.decryptPacket pkt.seq pkt.payload with
  | none =>
      (st, .ok { r with
        decryptErrors := r.decryptErrors ++ [pkt.seq]
        point := .advance pkt.seq none queue batchEnd stop todo })
  | some inner =>
      match advanceTo pkt.seq inner.content with
      | none => (st, .error (.error "file range overflow"))
      | some (target, skipUntil) =>
          let own := if inner.sender = c.username then st.getMessageBySeq c.key pkt.seq else none
          match own with
          | some id =>
              (st.updateStatus id .delivered, .ok { r with
                point := .advance target (some id) (dropSkipped skipUntil queue) batchEnd stop todo })
          | none =>
              match c.processIncoming now st inner pkt.seq with
              | (st, .error e) => (st, .error e)
              | (st, .ok msg) =>
                  (st, .ok { r with
                    messages := r.messages ++ msg.toList
                    point := .advance target none (dropSkipped skipUntil queue) batchEnd stop todo })

/-- One step between requests. At a point that waits for an answer there is none. -/
def localStep (c : Client κ) (now : Int) (st : LocalStore) (r : Receive π) :
    Option (LocalStore × Except Fault (Receive π)) :=
  match r.point with
  | .load =>
      let r := { r with
        allRuns := r.allRuns.insertionSort (fun a b => a.1 ≤ b.1)
        cursor := st.getLastPulledSeq c.key }
      some (st, .ok (r.nextRun r.allRuns))
  | .skip batchEnd stop todo =>
      some (st.setLastPulledSeq c.key batchEnd,
        .ok ({ r with cursor := batchEnd }.nextBatch (saturatingAdd batchEnd 1) stop todo))
  | .packet pkt queue batchEnd stop todo =>
      some (onPacket c now st r pkt queue batchEnd stop todo)
  | .advance target own queue batchEnd stop todo =>
      let st := st.setLastPulledSeq c.key target
      let updated := own.bind (fun id => st.getMessageById c.key id)
      let r := { r with cursor := target, messages := r.messages ++ updated.toList }
      some (st, .ok (r.nextPacket queue batchEnd stop todo))
  | .bump =>
      if r.cursor < r.lastSeqTotal then
        some (st.setLastPulledSeq c.key r.lastSeqTotal,
          .ok { r with cursor := r.lastSeqTotal, point := .sweep })
      else some (st, .ok { r with point := .sweep })
  | .sweep =>
      match (st.getDeliveredServerSeqs c.key).filter (fun s => !seqInRuns r.allRuns s) with
      | [] => some (st, .ok { r with point := .done })
      | tombstones => some (st, .ok { r with point := .delete tombstones })
  | .delete tombstones =>
      some (st.deleteMessagesBySeqs c.key tombstones, .ok { r with point := .done })
  | _ => none

end Step

end Receive

end Paranoia
