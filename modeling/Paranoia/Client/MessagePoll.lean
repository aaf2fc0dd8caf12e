import Mathlib.Algebra.Order.Ring.Int
import Mathlib.Data.List.Basic
import Mathlib.Logic.Function.Basic

/-!
# Waiting for messages in the background

While the application is in the background its service keeps one request at the server of each
profile, which is answered when one of the profile's dialogues has something new. The request asks
about each dialogue from a cursor on: the position the snapshot of the application gives, or what the
answers so far have moved the cursor to, which is by the number of packets they counted. Each request
runs on its own thread, which starts the next one when it is done; snapshots come at any time, and so
do pushes. A step below is what runs between two reads or writes of what the threads share, but for
two of them: `startMessageLongPolls` goes over all profiles of the snapshot in one step, and `ask`
reads the cursors of all dialogues of its profile in one.
-/

namespace Paranoia

structure DialogHint where
  partner : String
  seq : Nat
  deriving DecidableEq

structure ProfileHint where
  server : String
  signingKey : String
  sender : String
  dialogs : List DialogHint
  deriving DecidableEq

/-- A dialogue of a user on a server. -/
structure Place where
  server : String
  sender : String
  partner : String
  deriving DecidableEq

structure LivePacket where
  seq : Nat
  fromPartner : Bool
  deriving DecidableEq

namespace ProfileHint

def place (p : ProfileHint) (partner : String) : Place := ⟨p.server, p.sender, partner⟩

end ProfileHint

/-- What `MSG_SEEN_SEQ` is asked with. -/
def seenKey (sender partner : String) : String := sender ++ "|" ++ partner

/-- What is kept of the JSON; the fields come trimmed. -/
def keepProfiles (raw : List ProfileHint) : List ProfileHint :=
  ((raw.filter (fun p => p.server ≠ "" ∧ p.signingKey ≠ "" ∧ p.sender ≠ "")).map (fun p =>
    { p with dialogs := p.dialogs.filter (fun d => d.partner ≠ "") })).filter
      (fun p => p.dialogs ≠ [])

/-- How far a request is whose key is in `MSG_INFLIGHT`. -/
inductive FlightPhase
  | starting
  | asking (polled : List (String × Nat))
  | answered (polled lit : List (String × Nat))
  deriving DecidableEq

structure PollFlight where
  profile : ProfileHint
  phase : FlightPhase
  deriving DecidableEq

/-- The rest of a thread, after its key was taken out of `MSG_INFLIGHT`: what is still to be noted of
the answer, and then the pause before the next request. -/
structure PollTail where
  profile : ProfileHint
  polled : List (String × Nat)
  lit : List (String × Nat)
  deriving DecidableEq

structure PollWorld where
  packets : Place → List LivePacket
  /-- `last_seq` of the user in the dialogue. -/
  lastSeq : Place → Nat
  snapshot : List ProfileHint
  seen : String → Option Nat
  /-- `MSG_INFLIGHT`, with the thread of each key. -/
  flying : String → Option PollFlight
  tails : List PollTail
  /-- The greatest number a packet of the dialogue ever had, and the partner's packets that an answer
  to the user counted. -/
  top : Place → Nat
  counted : Place → List Nat
  /-- The profiles of all snapshots so far. -/
  past : List ProfileHint
  /-- `startMessageLongPolls` ran on the snapshot. -/
  launched : Bool

inductive PollLabel
  | push (place : Place) (seq : Nat) (fromPartner : Bool)
  | delete (place : Place) (seqs : List Nat)
  | updateLastSeq (place : Place) (seq : Nat)
  | handleSnapshotIntent (raw : List ProfileHint)
  | startMessageLongPolls
  /-- The thread of the key reads the cursors and sends the request. -/
  | ask (sender : String)
  | answer (sender : String) (unregistered : List String)
  | fail (sender : String)
  | finish (sender : String)
  | note (k : Nat)
  | restart (k : Nat)
  /-- The thread finds the snapshot empty before its pause. -/
  | quit (k : Nat)
  deriving DecidableEq

namespace PollWorld

def init (packets : Place → List LivePacket) (lastSeq : Place → Nat) : PollWorld where
  packets := packets
  lastSeq := lastSeq
  snapshot := []
  seen := fun _ => none
  flying := fun _ => none
  tails := []
  top := fun place => ((packets place).map LivePacket.seq).foldr max 0
  counted := fun _ => []
  past := []
  launched := false

/-- What `count_new_for_user` returns. -/
def countNew (w : PollWorld) (place : Place) (cursor : Nat) : Nat :=
  ((w.packets place).filter (fun x => max cursor (w.lastSeq place) < x.seq)).length

def cursor (w : PollWorld) (p : ProfileHint) (d : DialogHint) : Nat :=
  match w.seen (seenKey p.sender d.partner) with
  | some seen => if d.seq < seen then seen else d.seq
  | none => d.seq

/-- The items that are sent. -/
def items (w : PollWorld) (p : ProfileHint) : List (String × Nat) :=
  p.dialogs.map (fun d => (d.partner, w.cursor p d))

/-- `polled.get`: of two items with one partner the later one was put. -/
def base (polled : List (String × Nat)) (partner : String) : Nat :=
  ((polled.reverse.find? (fun x => x.1 = partner)).map Prod.snd).getD 0

/-- `do_notify_multi`, at its last scan. -/
def lit (w : PollWorld) (p : ProfileHint) (polled : List (String × Nat))
    (unregistered : List String) : List (String × Nat) :=
  polled.filterMap (fun x =>
    if x.1 ∈ unregistered ∨ w.countNew (p.place x.1) x.2 = 0 then none
    else some (x.1, w.countNew (p.place x.1) x.2))

/-- The partner's packets of the dialogue that the answer counts. -/
def countedBy (w : PollWorld) (p : ProfileHint) (polled : List (String × Nat))
    (unregistered : List String) (place : Place) : List Nat :=
  if place = p.place place.partner then
    (polled.filter (fun x => x.1 = place.partner ∧ x.1 ∉ unregistered)).flatMap (fun x =>
      ((w.packets place).filter (fun y =>
        y.fromPartner ∧ max x.2 (w.lastSeq place) < y.seq)).map LivePacket.seq)
  else []

def spawnProfileLongPoll (w : PollWorld) (p : ProfileHint) : PollWorld :=
  if (w.flying p.sender).isSome then w
  else { w with flying := Function.update w.flying p.sender (some ⟨p, .starting⟩) }

def startMessageLongPolls (w : PollWorld) : PollWorld :=
  { (w.snapshot.filter (fun p => p.dialogs ≠ [])).foldl spawnProfileLongPoll w with
    launched := true }

def setPhase (w : PollWorld) (sender : String) (f : PollFlight) (phase : FlightPhase) : PollWorld :=
  { w with flying := Function.update w.flying sender (some { f with phase := phase }) }

/-- The thread leaves `MSG_INFLIGHT`. -/
def leave (w : PollWorld) (sender : String) (tail : PollTail) : PollWorld :=
  { w with flying := Function.update w.flying sender none, tails := tail :: w.tails }

/-- The first item of the answer that is not noted yet. -/
def note (w : PollWorld) (k : Nat) (t : PollTail) (x : String × Nat) (rest : List (String × Nat)) :
    PollWorld :=
  let w := { w with tails := w.tails.set k { t with lit := rest } }
  if x.1 = "" ∨ x.2 = 0 then w
  else { w with
    seen := Function.update w.seen (seenKey t.profile.sender x.1) (some (base t.polled x.1 + x.2)) }

def findProfile (w : PollWorld) (sender : String) : Option ProfileHint :=
  w.snapshot.find? (fun p => p.sender = sender)

/-- The end of a thread, which starts the next one. -/
def restart (w : PollWorld) (k : Nat) (t : PollTail) : PollWorld :=
  let w := { w with tails := w.tails.eraseIdx k }
  match w.findProfile t.profile.sender with
  | some fresh => if fresh.dialogs = [] then w else w.spawnProfileLongPoll fresh
  | none => w

def step (w : PollWorld) : PollLabel → Option PollWorld
  | .push place seq fromPartner =>
      -- a number that is taken is refused; the numbers of the client are `long`s
      if seq ∈ (w.packets place).map LivePacket.seq ∨ 2 ^ 63 ≤ seq then none
      else some { w with
        packets := Function.update w.packets place (⟨seq, fromPartner⟩ :: w.packets place)
        top := Function.update w.top place (max (w.top place) seq)
        counted := Function.update w.counted place ((w.counted place).filter (fun s => s ≠ seq)) }
  | .delete place seqs =>
      some { w with packets :=
        Function.update w.packets place ((w.packets place).filter (fun x => x.seq ∉ seqs)) }
  | .updateLastSeq place seq =>
      some { w with lastSeq := Function.update w.lastSeq place (max (w.lastSeq place) seq) }
  | .handleSnapshotIntent raw =>
      some { w with
        snapshot := keepProfiles raw
        past := keepProfiles raw ++ w.past
        launched := false }
  | .startMessageLongPolls => some w.startMessageLongPolls
  | .ask sender =>
      match w.flying sender with
      | some ⟨p, .starting⟩ => some (w.setPhase sender ⟨p, .starting⟩ (.asking (w.items p)))
      | _ => none
  | .answer sender unregistered =>
      match w.flying sender with
      | some ⟨p, .asking polled⟩ =>
          some { w.setPhase sender ⟨p, .asking polled⟩
              (.answered polled (w.lit p polled unregistered)) with
            counted := fun place => w.countedBy p polled unregistered place ++ w.counted place }
      | _ => none
  | .fail sender =>
      match w.flying sender with
      | some ⟨p, .asking polled⟩ => some (w.leave sender ⟨p, polled, []⟩)
      | _ => none
  | .finish sender =>
      match w.flying sender with
      | some ⟨p, .answered polled lit⟩ => some (w.leave sender ⟨p, polled, lit⟩)
      | _ => none
  | .note k =>
      match w.tails[k]? with
      | some ⟨p, polled, x :: rest⟩ => some (w.note k ⟨p, polled, x :: rest⟩ x rest)
      | _ => none
  | .restart k =>
      match w.tails[k]? with
      | some ⟨p, polled, []⟩ => some (w.restart k ⟨p, polled, []⟩)
      | _ => none
  | .quit k =>
      match w.tails[k]? with
      | some ⟨_, _, []⟩ =>
          if w.snapshot = [] then some { w with tails := w.tails.eraseIdx k } else none
      | _ => none

/-! ## What the polls are for -/

/-- The live packets of the partner that no answer counted. -/
def uncounted (w : PollWorld) (place : Place) : List Nat :=
  ((w.packets place).filter (fun x => x.fromPartner ∧ x.seq ∉ w.counted place)).map LivePacket.seq

/-- The cursors of each request are below what it is to hear of, and once the polls were started every
profile has a request of its own, or a thread about to start the next. -/
structure Watches (w : PollWorld) : Prop where
  below : ∀ sender p polled, w.flying sender = some ⟨p, .asking polled⟩ →
    ∀ d ∈ p.dialogs, ∀ cursor, (d.partner, cursor) ∈ polled →
      ∀ s ∈ w.uncounted (p.place d.partner), d.seq < s → cursor < s
  running : w.launched = true → ∀ p ∈ w.snapshot,
    (∃ f, w.flying p.sender = some f ∧ f.profile.sender = p.sender ∧ f.profile.server = p.server)
    ∨ ∃ t ∈ w.tails, t.profile.sender = p.sender ∧ t.profile.server = p.server

end PollWorld

end Paranoia
