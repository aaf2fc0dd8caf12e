import Mathlib.Data.List.Sort
import Paranoia.Types

/-!
# The Codex channel

The messages of one topic are added to the queue of a Codex thread, one after another. How far the
channel has come is on the disk: the number of the last message that is done with, and the message
that is pending, with what was done for it. Whatever fails, the channel connects again and goes on
from what is on the disk.

Codex may execute a request late, or lose its answer; only the two codes that say so mean that it
was not executed. It does not know a request that it has seen. The lists of its queue and of its
history are read in pages, so an item that moves may be missed in both.
-/

namespace Paranoia

/-- Numbers of messages, as the store's integers hold them. -/
abbrev ServerSeq := Fin (2 ^ 63)

instance signBit : NeZero (2 ^ 63) := ⟨by decide⟩

structure MessageKey where
  seq : ServerSeq
  messageId : String
deriving DecidableEq

/-- A row of the dialogue that the server has numbered. -/
structure StoreRow where
  id : String
  seq : ServerSeq
  sender : String
  topicId : Option String
  /-- There is none if it cannot be read. -/
  content : Option MessageContent
deriving DecidableEq

namespace StoreRow

def key (r : StoreRow) : MessageKey := ⟨r.seq, r.id⟩

/-- The rows above a number, in their order; rows that cannot be read count for the limit. -/
def messagesAfterSeq (store : List StoreRow) (after : ServerSeq) (limit : Nat) : List StoreRow :=
  ((((store.filter (after < ·.seq)).insertionSort fun a b => a.seq ≤ b.seq)).take limit).filter
    (·.content.isSome)

def inScope (selfHash : String) (topicId : Option String) (r : StoreRow) : Bool :=
  r.sender ≠ selfHash && r.topicId = topicId && match r.content with
    | some (.text _) | some (.textReply ..) | some (.file _) | some (.image _) | some (.voice _)
    | some (.video _) | some (.photoGroup ..) => true
    | _ => false

/-- A row is saved in place of one with its id. A number that is there is not saved again. -/
def save (store : List StoreRow) (r : StoreRow) : Option (List StoreRow) :=
  if store.any (·.seq = r.seq) then none else some (r :: store.filter (·.id ≠ r.id))

end StoreRow

/-! ## What is on the disk -/

structure CodexPending where
  seq : ServerSeq
  messageId : String
  reactionSent : Bool
  submitted : Bool
deriving DecidableEq

def CodexPending.key (p : CodexPending) : MessageKey := ⟨p.seq, p.messageId⟩

structure CodexState where
  seq : ServerSeq
  pending : Option CodexPending
deriving DecidableEq

/-- The last `width` decimal digits. -/
def decimal : Nat → Nat → List Char
  | 0, _ => []
  | width + 1, n => decimal width (n / 10) ++ [Nat.digitChar (n % 10)]

def clientId (tag : String) (k : MessageKey) : String :=
  tag ++ String.ofList (decimal 20 k.seq) ++ ":" ++ k.messageId

/-! ## The channel -/

inductive ChannelPc where
  /-- It is not running, or not connected. -/
  | down
  | reading
  /-- Messages that have been read and are not done with. -/
  | batch (rows : List StoreRow)
  /-- The first of them is submitted, as the disk says; the request is not sent. -/
  | enqueue (rows : List StoreRow)
  | awaiting (rows : List StoreRow)
  /-- Codex has said that it did not execute the request. -/
  | rejected
  /-- The pending message is not the first in the store, and was submitted. -/
  | confirming
  /-- It was not. -/
  | checking
deriving DecidableEq

structure CodexWorld where
  selfHash : String
  topicId : Option String
  /-- What all client ids of this channel begin with. -/
  tag : String
  store : List StoreRow
  /-- The numbers that the server has no messages for any more. -/
  deleted : List ServerSeq
  disk : CodexState
  pc : ChannelPc
  /-- Requests that Codex may still execute. -/
  requests : List MessageKey
  queue : List String
  history : List String
  /-- What was added to the queue, in that order. -/
  added : List MessageKey
  /-- What came into the store at or below what had been read, and has not been read since. -/
  late : List StoreRow

inductive CodexLabel where
  | connect
  /-- The process stops, or a call or a save fails. -/
  | fail
  | read
  | skip
  | record
  | react
  | submit
  | send
  | answered
  | reject
  | unsubmit
  | confirm
  | check
  | next
  /-- Codex executes a request. -/
  | execute (k : MessageKey)
  /-- Codex takes an item off its queue into its history. -/
  | start (id : String)
  | save (r : StoreRow)
  | remove (id : String)
  | deleteSeq (seq : ServerSeq)
deriving DecidableEq

namespace CodexWorld

def InScope (w : CodexWorld) (r : StoreRow) : Prop := r.inScope w.selfHash w.topicId

instance (w : CodexWorld) (r : StoreRow) : Decidable (w.InScope r) :=
  inferInstanceAs (Decidable (_ = true))

def hand (w : CodexWorld) : List StoreRow :=
  match w.pc with
  | .batch rows | .enqueue rows | .awaiting rows => rows
  | _ => []

/-- The channel has read past this row, and has not read it. -/
def Past (w : CodexWorld) (r : StoreRow) : Prop :=
  r.seq ≤ w.disk.seq ∨ (∃ p ∈ w.disk.pending, r.seq ≤ p.seq ∧ r.key ≠ p.key)
    ∨ r ∉ w.hand ∧ ∃ b ∈ w.hand, r.seq ≤ b.seq

instance (w : CodexWorld) (r : StoreRow) : Decidable (w.Past r) :=
  inferInstanceAs (Decidable (_ ∨ (∃ p ∈ w.disk.pending, r.seq ≤ p.seq ∧ r.key ≠ p.key) ∨ _))

/-! ## Steps of the channel -/

/-- The loop begins anew. -/
def read (w : CodexWorld) : Option CodexWorld :=
  if w.pc = .reading then
    let messages := StoreRow.messagesAfterSeq w.store w.disk.seq 256
    let batch := { w with
      pc := .batch messages
      late := w.late.filter fun r =>
        r.seq ≤ w.disk.seq ∨ ∃ p ∈ w.disk.pending, r.seq ≤ p.seq }
    match w.disk.pending with
    | none => some batch
    | some p =>
        -- the pending message has to come first; else it is gone, or another is before it
        if messages.head?.map StoreRow.id = some p.messageId then some batch
        else some { w with pc := if p.submitted then .confirming else .checking }
  else none

/-- The first message is not in scope. -/
def skip (w : CodexWorld) : Option CodexWorld :=
  match w.pc with
  | .batch (r :: rows) =>
      if (∀ p ∈ w.disk.pending, r.id = p.messageId) ∧ ¬w.InScope r then
        -- a pending message is left as it is
        some { w with disk := { w.disk with seq := r.seq }, pc := .batch rows }
      else none
  | _ => none

def record (w : CodexWorld) : Option CodexWorld :=
  match w.pc, w.disk.pending with
  | .batch (r :: _), none =>
      if w.InScope r then
        some { w with disk := { w.disk with pending := some ⟨r.seq, r.id, false, false⟩ } }
      else none
  | _, _ => none

/-- The first message is the pending one, and something is to be done for it. -/
def deliver (w : CodexWorld) (act : CodexPending → List StoreRow → Option CodexWorld) :
    Option CodexWorld :=
  match w.pc, w.disk.pending with
  | .batch (r :: rows), some p =>
      if w.InScope r ∧ r.key = p.key then act p (r :: rows) else none
  | _, _ => none

def react (w : CodexWorld) : Option CodexWorld :=
  w.deliver fun p _ =>
    if p.reactionSent then none
    else some { w with disk := { w.disk with pending := some { p with reactionSent := true } } }

def submit (w : CodexWorld) : Option CodexWorld :=
  w.deliver fun p rows =>
    if p.reactionSent ∧ ¬p.submitted then
      some { w with
        disk := { w.disk with pending := some { p with submitted := true } }
        pc := .enqueue rows }
    else none

def send (w : CodexWorld) : Option CodexWorld :=
  match w.pc, w.disk.pending with
  | .enqueue rows, some p =>
      some { w with requests := p.key :: w.requests, pc := .awaiting rows }
  | _, _ => none

/-- The pending message is done with. -/
def advance (w : CodexWorld) (p : CodexPending) (pc : ChannelPc) : CodexWorld :=
  { w with disk := ⟨p.seq, none⟩, pc }

def answered (w : CodexWorld) : Option CodexWorld :=
  match w.pc, w.disk.pending with
  | .awaiting rows, some p =>
      -- Codex answers what it has executed
      if p.key ∈ w.added then some (w.advance p (.batch rows.tail)) else none
  | _, _ => none

def reject (w : CodexWorld) : Option CodexWorld :=
  match w.pc, w.disk.pending with
  | .awaiting _, some p =>
      if p.key ∈ w.requests then
        some { w with requests := w.requests.filter (· ≠ p.key), pc := .rejected }
      else none
  | _, _ => none

def unsubmit (w : CodexWorld) : Option CodexWorld :=
  match w.pc, w.disk.pending with
  | .rejected, some p =>
      some { w with
        disk := { w.disk with pending := some { p with submitted := false } }
        pc := .down }
  | _, _ => none

def confirmed (w : CodexWorld) (id : String) : Bool := id ∈ w.queue || id ∈ w.history

/-- A submitted message is found with Codex. -/
def confirm (w : CodexWorld) : Option CodexWorld :=
  match w.pc with
  | .confirming =>
      w.disk.pending.bind fun p =>
        if w.confirmed (clientId w.tag p.key) then some (w.advance p .reading) else none
  | _ =>
      w.deliver fun p rows =>
        if p.reactionSent ∧ p.submitted ∧ w.confirmed (clientId w.tag p.key) then
          some (w.advance p (.batch rows.tail))
        else none

/-- A message that the server does not have either is deleted. -/
def check (w : CodexWorld) : Option CodexWorld :=
  match w.pc, w.disk.pending with
  | .checking, some p =>
      if p.seq ∈ w.deleted then some (w.advance p .reading) else some { w with pc := .down }
  | _, _ => none

def execute (w : CodexWorld) (k : MessageKey) : Option CodexWorld :=
  if k ∈ w.requests then
    some { w with
      requests := w.requests.filter (· ≠ k)
      queue := w.queue ++ [clientId w.tag k]
      added := w.added ++ [k] }
  else none

def step (w : CodexWorld) : CodexLabel → Option CodexWorld
  | .connect => if w.pc = .down then some { w with pc := .reading } else none
  | .fail => some { w with pc := .down }
  | .read => w.read
  | .skip => w.skip
  | .record => w.record
  | .react => w.react
  | .submit => w.submit
  | .send => w.send
  | .answered => w.answered
  | .reject => w.reject
  | .unsubmit => w.unsubmit
  | .confirm => w.confirm
  | .check => w.check
  | .next => if w.pc = .batch [] then some { w with pc := .reading } else none
  | .execute k => w.execute k
  | .start id =>
      if id ∈ w.queue then
        some { w with queue := w.queue.erase id, history := w.history ++ [id] }
      else none
  | .save r =>
      (StoreRow.save w.store r).map fun store =>
        { w with store, late := if w.Past r then r :: w.late else w.late }
  | .remove id => some { w with store := w.store.filter (·.id ≠ id) }
  | .deleteSeq seq => some { w with deleted := seq :: w.deleted }

/-! ## What is delivered -/

/-- Messages are added once and in the order of their numbers. One that is in the store between the
anchor and the cursor was added, unless it was deleted, or came in where the channel had read
already. -/
structure Delivered (anchor : ServerSeq) (w : CodexWorld) : Prop where
  once : w.added.Nodup
  kept : ∀ r ∈ w.store, w.InScope r → anchor < r.seq → r.seq ≤ w.disk.seq →
    r.key ∈ w.added ∨ r.seq ∈ w.deleted ∨ r ∈ w.late
  order : w.added.Pairwise fun a b => a.seq < b.seq

end CodexWorld

end Paranoia
