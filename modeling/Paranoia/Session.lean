import Paranoia.World

/-!
# A dialogue that asks for the read position

`refreshArrivedStatus` of a device asks the server how far the other party has read, and
marks the account's own messages up to there. It runs beside the calls of `World` and
touches nothing they do not: a session is a world together with the devices that wait for
such an answer. What the server answers is open.

`confirmed` and `changes` are ghosts: what the other party was heard to have read, by a
receipt of its own or by an answer of the server, and every change of the status of an
outgoing message.
-/

namespace Paranoia

namespace MessageStatus

/-- How far a message has come: pending, delivered, read. A failed one is pending. -/
def rank : MessageStatus → Nat
  | sending => 0
  | sent => 0
  | failed => 0
  | delivered => 1
  | read => 2

end MessageStatus

/-- A change of the status of a message of the account on one of its devices. -/
structure StatusChange (n : Nat) where
  dev : Fin n
  id : MessageId
  serverSeq : Option Nat
  before : MessageStatus
  after : MessageStatus
deriving DecidableEq

/-- A write to the status column, by the place that makes it. -/
inductive StatusWrite where
  /-- `receive` meets the account's own message with this id. -/
  | met (id : MessageId)
  /-- A packet that was received is stored under this id. -/
  | stored (id : MessageId)
  /-- A message to be sent is stored under this id. -/
  | saved (id : MessageId) (status : MessageStatus)
  /-- The transfer of the message with this id ends. -/
  | ended (id : MessageId) (status : MessageStatus)
  /-- A read receipt of `sender` takes effect. -/
  | receipt (sender : String) (upToSeq : Nat)
deriving DecidableEq

section Write

variable {κ π : Type}

/-- What processing a decrypted packet writes to the status column. -/
def Client.packetWrite (c : Client κ) (now : Int) (st : LocalStore) (inner : PacketInner)
    (seq : Nat) : Option StatusWrite :=
  match st.getMessageBySeq c.key seq with
  | some id => if inner.sender = c.username then some (.met id) else none
  | none =>
      match inner.content with
      | .readReceipt upToSeq => some (.receipt inner.sender upToSeq)
      | .delete _ => none
      | .fileHeader transferId .. => some (.stored transferId)
      | .fileChunk transferId index total filename mimeType totalSize data =>
          if (st.getMessageById c.key transferId).isNone && st.completes c.allocLimit
              (c.chunkRow now inner transferId index total filename mimeType totalSize data) then
            some (.stored transferId)
          else none
      | _ => some (.stored inner.id)

/-- What the coming step of a call writes to the status column. -/
def Task.statusWrite [Aead κ π] (c : Client κ) (now : Int) (st : LocalStore) (task : Task π) :
    Option StatusWrite :=
  match task.rx with
  | some rx =>
      match rx.run.point with
      | .packet pkt _ _ _ _ =>
          (c.decryptPacket pkt.seq pkt.payload).bind (fun inner =>
            (Receive.advanceTo pkt.seq inner.content).bind (fun _ =>
              c.packetWrite now st inner pkt.seq))
      | _ => none
  | none =>
      match task.outer with
      | .save _ id _ => some (.saved id .sent)
      | .saveSending t => some (.saved t.transferId .sending)
      | .markSent _ t => some (.ended t.transferId .sent)
      | .giveUp _ t => some (.ended t.transferId .failed)
      | _ => none

end Write

structure Session (π : Type) (n : Nat) where
  world : World π n
  asking : List (Fin n)
  confirmed : List (Fin n × Nat)
  changes : List (StatusChange n)

inductive Session.Label (π : Type) (n : Nat) where
  | world (l : Paranoia.Label π n)
  /-- A device asks for the position of the other party. -/
  | ask (dev : Fin n)
  /-- The answer to one of the questions; the other party may keep its position to itself. -/
  | arrived (i : Nat) (partnerLastSeq : Option Nat)
deriving DecidableEq

namespace Session

variable {κ π : Type} {n : Nat}

def init (cfg : Setup κ n) : Session π n := ⟨World.init cfg, [], [], []⟩

/-- The changes of status between two worlds. -/
def statusChanges (cfg : Setup κ n) (w w' : World π n) : List (StatusChange n) :=
  (List.finRange n).flatMap (fun d =>
    (w.store d).messages.rows.flatMap (fun m =>
      if m.sender = (cfg.device d).username then
        ((w'.store d).messages.rows.filter (fun m' => m'.id = m.id && m'.status ≠ m.status)).map
          (fun m' => ⟨d, m.id, m'.serverSeq, m.status, m'.status⟩)
      else []))

section Step

variable [Aead κ π] (cfg : Setup κ n)

/-- The write to the status column a step is about to make, with its device. -/
def pendingWrite (w : World π n) : Paranoia.Label π n → Option (Fin n × StatusWrite)
  | .localStep id env =>
      (w.job id).bind (fun job =>
        (job.task.statusWrite (cfg.device job.dev) env.now (w.store job.dev)).map
          (fun write => (job.dev, write)))
  | _ => none

/-- What a step hears the other party to have read. -/
def heard (w : World π n) (l : Paranoia.Label π n) : List (Fin n × Nat) :=
  match pendingWrite cfg w l with
  | some (d, .receipt sender upToSeq) =>
      if sender = (cfg.device d).partner then [(d, upToSeq)] else []
  | _ => []

def step (s : Session π n) : Label π n → Option (Session π n)
  | .world l =>
      match World.step cfg s.world l with
      | none => none
      | some w => some { s with
          world := w
          confirmed := s.confirmed ++ heard cfg s.world l
          changes := s.changes ++ statusChanges cfg s.world w }
  | .ask dev =>
      let c := cfg.device dev
      match (s.world.store dev).latestOutgoingStatus c.key c.username with
      | none => none
      | some (_, .read) => none
      | some _ => some { s with asking := s.asking ++ [dev] }
  | .arrived i partnerLastSeq =>
      match s.asking[i]?, partnerLastSeq with
      | none, _ => none
      | some _, none => some { s with asking := s.asking.eraseIdx i }
      | some dev, some upToSeq =>
          let c := cfg.device dev
          let w := s.world.setStore dev
            ((s.world.store dev).markOutgoingReadUntil c.key c.username upToSeq)
          some
            { world := w
              asking := s.asking.eraseIdx i
              confirmed := s.confirmed ++ [(dev, upToSeq)]
              changes := s.changes ++ statusChanges cfg s.world w }

end Step

end Session

end Paranoia
