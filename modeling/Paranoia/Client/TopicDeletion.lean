import Mathlib.Data.List.Sort
import Paranoia.Client.Incoming

/-!
# Deleting a topic

`deleteTopic` deletes the messages of a topic, on the server and locally, and
`trimTopicKeepLast` all but the newest of them. On the server the body of an attachment lies at
the numbers after its header; the attachment itself tells how far it reaches. The
server deletes by ranges: the numbers are sorted and sent as runs, one request each. What the
server answers is a list, and a call whose answers have run out still waits.
-/

namespace Paranoia

/-- The attachment of a message, if it is of a kind that has one. -/
def attachmentRef : MessageContent → Option FileAttachment
  | .file file => some file
  | .image file => some file
  | .voice file => some file
  | .video file => some file
  | _ => none

/-! ## Numbers and runs -/

/-- `Vec::dedup`: of equal neighbours one stays. -/
def dedup : List Nat → List Nat
  | a :: b :: rest => if a = b then dedup (b :: rest) else a :: dedup (b :: rest)
  | rest => rest

/-- The loop of `contiguous_runs`, inside the run from `start` to `fin`. -/
def runsFrom (start fin : Nat) : List Nat → List (Nat × Nat)
  | [] => [(start, fin)]
  | s :: rest => if s = fin + 1 then runsFrom start s rest else (start, fin) :: runsFrom s s rest

def contiguousRuns : List Nat → List (Nat × Nat)
  | [] => []
  | first :: rest => runsFrom first first rest

/-- The numbers a message takes up on the server: its own, and those of the body its attachment
claims. `u64` wraps around. -/
def serverSeqsOf (m : Message) : List Nat :=
  match m.serverSeq with
  | none => []
  | some seq =>
      seq :: match attachmentRef m.content with
        | some file =>
            if seq ≤ file.bodyToSeq then
              List.range' ((seq + 1) % u64Size) (file.bodyToSeq + 1 - (seq + 1) % u64Size)
            else []
        | none => []

/-- What the server is asked to delete for these messages. -/
def plannedRuns (msgs : List Message) : List (Nat × Nat) :=
  contiguousRuns (dedup ((msgs.flatMap serverSeqsOf).insertionSort (· ≤ ·)))

/-! ## The calls -/

/-- The requests of `remove_server_range` one after the other, until one fails: those that were
sent, and the outcome, none while an answer is missing. -/
def removeServerRanges : List (Nat × Nat) → List (Except Fault Unit) →
    List (Nat × Nat) × Option (Except Fault Unit)
  | [], _ => ([], some (.ok ()))
  | (fromSeq, toSeq) :: runs, answers =>
      if toSeq = 0 then ([], some (.error (.error "to_seq must be > 0")))
      else match answers with
        | [] => ([(fromSeq, toSeq)], none)
        | .error e :: _ => ([(fromSeq, toSeq)], some (.error e))
        | .ok () :: answers =>
            let (sent, outcome) := removeServerRanges runs answers
            ((fromSeq, toSeq) :: sent, outcome)

/-- What a call has done: the store, the ranges it has sent, and its outcome. -/
structure Deletion where
  store : LocalStore
  sent : List (Nat × Nat)
  outcome : Option (Except Fault Nat)

namespace LocalStore

/-- The messages of a topic. -/
def listTopicMessages (st : LocalStore) (dialogue : DialogueKey) (topicId : String) :
    List Message :=
  st.messages.rows.filter (fun m => m.dialogue = dialogue && m.topicId = some topicId)

end LocalStore

namespace Client

variable {κ : Type}

/-- Delete these messages, on the server first. -/
def deleteListed (c : Client κ) (st : LocalStore) (msgs : List Message)
    (answers : List (Except Fault Unit)) : Deletion :=
  let localSeqs := msgs.filterMap Message.serverSeq
  let (sent, outcome) := removeServerRanges (plannedRuns msgs) answers
  match outcome with
  | none => ⟨st, sent, none⟩
  | some (.error e) => ⟨st, sent, some (.error e)⟩
  | some (.ok ()) => ⟨st.deleteMessagesBySeqs c.key localSeqs, sent, some (.ok localSeqs.length)⟩

def deleteTopic (c : Client κ) (st : LocalStore) (topicName : String)
    (answers : List (Except Fault Unit)) : Deletion :=
  let msgs := st.listTopicMessages c.key (c.deriveTopicId c.key topicName)
  if msgs.isEmpty then ⟨st, [], some (.ok 0)⟩
  else c.deleteListed st msgs answers

/-- The messages of a topic that have a number, the oldest first. -/
def sendable (c : Client κ) (st : LocalStore) (topicName : String) : List Message :=
  ((st.listTopicMessages c.key (c.deriveTopicId c.key topicName)).insertionSort
    (fun a b => a.serverSeq.getD (u64Size - 1) ≤ b.serverSeq.getD (u64Size - 1))).filter
      (fun m => m.serverSeq.isSome)

def trimTopicKeepLast (c : Client κ) (st : LocalStore) (topicName : String) (keep : Nat)
    (dryRun : Bool) (answers : List (Except Fault Unit)) : Deletion :=
  let msgs := c.sendable st topicName
  if msgs.length ≤ keep then ⟨st, [], some (.ok 0)⟩
  else
    let msgs := msgs.take (msgs.length - keep)
    if dryRun then ⟨st, [], some (.ok (msgs.filterMap Message.serverSeq).length)⟩
    else c.deleteListed st msgs answers

end Client

end Paranoia
