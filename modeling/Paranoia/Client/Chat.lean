import Mathlib.Data.List.Sort
import Mathlib.Logic.Function.Basic
import Paranoia.Lib.Lts

/-!
# Chats

Messages that are shown are cached by the label of their dialogue, and so is the outbox. Sending,
receiving and loading the history run on workers, each for the session and the dialogue that were
active when it was begun; what they bring is delivered on the GUI thread later. A change of the
profile clears the cache and closes the chat; the outbox and the workers stay.

Reactions, previews and files are left out, and so is a second tap on the button. The application is
in the foreground.
-/

namespace Paranoia

/-- A dialogue of a profile; labels may be the same in several profiles. -/
structure DialogueRef where
  profileId : String
  dialogue : Nat
deriving DecidableEq

structure ChatDialog where
  peer : String
  /-- Which dialogue it is, whatever its label. -/
  dialogue : Nat
deriving DecidableEq

structure ChatRow where
  id : String
  clientToken : Option String
  sender : String
  text : String
  seq : Nat
  ts : Int
  status : String
  topicName : String
  /-- The dialogue that the message is of. -/
  owner : DialogueRef
deriving DecidableEq

structure OutboxItem where
  clientToken : String
  peer : String
  text : String
  ts : Int
  topic : String
  status : String
  /-- The dialogue that it was composed in. -/
  origin : DialogueRef
deriving DecidableEq

namespace ChatRow

/-! ## The cache of a dialogue -/

def isPending (r : ChatRow) : Bool := "pending:txt:".toList.isPrefixOf r.id.toList

/-- The cache, with the places of ids and numbers, the newest entry first. -/
structure Merge where
  cache : List ChatRow
  idToIndex : List (String × Nat)
  seqToIndex : List (Nat × Nat)
deriving DecidableEq

/-- The places of the pending messages by their texts. -/
def pendingTexts (cache : List ChatRow) : List (String × Nat) :=
  (cache.zipIdx.filter fun r => r.1.isPending ∧ r.1.text ≠ "").reverse.map fun r => (r.1.text, r.2)

def Merge.ofCache (cache : List ChatRow) : Merge where
  cache := cache
  idToIndex := (cache.zipIdx.filter (·.1.id ≠ "")).reverse.map fun r => (r.1.id, r.2)
  seqToIndex := (cache.zipIdx.filter (·.1.seq ≠ 0)).reverse.map fun r => (r.1.seq, r.2)

/-- The place of the message that this one is, by its id, its number, or its text if it is one of
the account's own that was pending. -/
def Merge.find (m : Merge) (pending : List (String × Nat)) (myId : String) (r : ChatRow) :
    Option Nat :=
  (if r.id ≠ "" then m.idToIndex.lookup r.id else none)
    <|> (if r.seq ≠ 0 then m.seqToIndex.lookup r.seq else none)
    <|> (if myId ≠ "" ∧ r.sender = myId then pending.lookup r.text else none)

def Merge.add (pending : List (String × Nat)) (myId : String) (m : Merge) (r : ChatRow) : Merge :=
  let at_ (i : Nat) (cache : List ChatRow) : Merge :=
    { cache
      idToIndex := if r.id ≠ "" then (r.id, i) :: m.idToIndex else m.idToIndex
      seqToIndex := if r.seq ≠ 0 then (r.seq, i) :: m.seqToIndex else m.seqToIndex }
  match m.find pending myId r with
  | some i => at_ i <| m.cache.modify i fun old =>
      { r with clientToken := r.clientToken <|> old.clientToken }
  | none => at_ m.cache.length (m.cache ++ [r])

def maxCachedPerPeer : Nat := 2000

def sortByTs (cache : List ChatRow) : List ChatRow := cache.insertionSort fun a b => a.ts ≤ b.ts

def appendMessages (cache : List ChatRow) (myId : String) (messages : List ChatRow) :
    List ChatRow :=
  if messages = [] then cache
  else
    let cache := sortByTs
      (messages.foldl (Merge.add (pendingTexts cache) myId) (Merge.ofCache cache)).cache
    cache.drop (cache.length - maxCachedPerPeer)

/-- Set the status of the first message with this token. -/
def setStatus (cache : List ChatRow) (clientToken status : String) : List ChatRow :=
  match cache.findIdx? (·.clientToken = some clientToken) with
  | some i => cache.modify i fun r => { r with status }
  | none => cache

def ofItem (item : OutboxItem) (sender status topicName : String) : ChatRow :=
  ⟨item.clientToken, some item.clientToken, sender, item.text, 0, item.ts, status, topicName,
    item.origin⟩

/-- Messages of the outbox that are not in the cache are put back. -/
def reinjectOutbox (outbox : List OutboxItem) (peer : String) (cache : List ChatRow) :
    List ChatRow :=
  sortByTs <| outbox.foldl (fun cache item =>
    if item.peer ≠ peer ∨ cache.any (·.clientToken = some item.clientToken) then cache
    else cache ++ [ofItem item "" item.status ""]) cache

/-- The history takes the place of the cache; what is newer than it stays. -/
def reload (outbox : List OutboxItem) (peer : String) (cache : List ChatRow) (myId : String)
    (messages : List ChatRow) : List ChatRow :=
  let histMaxSeq := (messages.map ChatRow.seq).foldl max 0
  let newer := cache.filter (histMaxSeq < ·.seq)
  reinjectOutbox outbox peer (appendMessages (appendMessages [] myId messages) myId newer)

end ChatRow

/-! ## Workers -/

/-- What a worker of a send has to tell. -/
inductive SendResult where
  | running
  | sent (messages : List ChatRow)
  | failed
deriving DecidableEq

structure SendTask where
  clientToken : String
  peer : String
  text : String
  /-- The account and the dialogue it is pushed by and to. -/
  target : DialogueRef
  origin : DialogueRef
  result : SendResult
deriving DecidableEq

/-- A `receive` or a loading of the history for a dialogue. -/
structure LoadTask where
  peer : String
  dialogue : DialogueRef
deriving DecidableEq

structure PushedText where
  text : String
  target : DialogueRef
  origin : DialogueRef
deriving DecidableEq

structure ChatWorld where
  dialogs : String → List ChatDialog
  /-- How each account names itself. -/
  myId : String → String
  active : Option String
  activePeer : String
  cache : String → List ChatRow
  outbox : List OutboxItem
  sendInFlight : List String
  receiveInFlight : Bool
  receiveAgain : Bool
  sends : List SendTask
  receives : List LoadTask
  histories : List (LoadTask × Bool)
  prefetches : List (List LoadTask)
  pushed : List PushedText

inductive ChatLabel where
  | sendText (clientToken text topic : String) (ts : Int)
  | retrySend (clientToken : String)
  /-- A push may be lost, or its answer. -/
  | work (i : Nat) (pushed : Bool) (answer : Option (List ChatRow))
  | sendDone (i : Nat)
  | fetchMessages
  | received (i : Nat) (messages : List ChatRow)
  | loadHistory (peer : String) (clearCache : Bool)
  | historyLoaded (i : Nat) (messages : Option (List ChatRow))
  | prefetchAllDialogs
  | prefetched (i : Nat) (messages : List (List ChatRow))
  | openChat (peer : String)
  | stopChat
  /-- A session becomes the active one, or is announced again. -/
  | switchSession (profileId : String)
  | noSession
  /-- Dialogues are added, renamed or taken away. -/
  | setDialogs (profileId : String) (dialogs : List ChatDialog)
  | removeDialog (peer : String)
deriving DecidableEq

namespace ChatWorld

/-- The dialogue that a label names in the active session. -/
def findDialog (w : ChatWorld) (peer : String) : Option DialogueRef :=
  w.active.bind fun p =>
    ((w.dialogs p).find? (·.peer = peer)).map fun d => ⟨p, d.dialogue⟩

def me (w : ChatWorld) : String := (w.active.map w.myId).getD ""

def setCache (w : ChatWorld) (peer : String) (cache : List ChatRow) : ChatWorld :=
  { w with cache := Function.update w.cache peer cache }

def append (w : ChatWorld) (peer : String) (messages : List ChatRow) : ChatWorld :=
  w.setCache peer (ChatRow.appendMessages (w.cache peer) w.me messages)

/-- Messages that a worker brings are of the dialogue it works for. -/
def messagesOf (d : DialogueRef) (messages : List ChatRow) : List ChatRow :=
  messages.map fun r => { r with owner := d }

def markOutboxFailed (w : ChatWorld) (peer clientToken : String) : ChatWorld :=
  let outbox := w.outbox.map fun item =>
    if item.clientToken = clientToken then { item with status := "failed" } else item
  ({ w with outbox } : ChatWorld).setCache peer
    (ChatRow.setStatus (w.cache peer) clientToken "failed")

def dispatchOutbox (w : ChatWorld) (clientToken : String) : ChatWorld :=
  match w.outbox.find? (·.clientToken = clientToken) with
  | none => w
  | some item =>
      -- the session and the dialogue are looked up anew
      match w.findDialog item.peer with
      | none => w.markOutboxFailed item.peer clientToken
      | some target =>
          if clientToken ∈ w.sendInFlight then w
          else { w with
            sendInFlight := clientToken :: w.sendInFlight
            sends := w.sends
              ++ [⟨clientToken, item.peer, item.text, target, item.origin, .running⟩] }

def sendTextMessage (w : ChatWorld) (clientToken text topic : String) (ts : Int) :
    Option ChatWorld :=
  (w.findDialog w.activePeer).map fun d =>
    let item : OutboxItem := ⟨clientToken, w.activePeer, text, ts, topic, "sending", d⟩
    let w : ChatWorld :=
      { w with outbox := w.outbox.filter (·.clientToken ≠ clientToken) ++ [item] }
    (w.setCache item.peer
      (w.cache item.peer ++ [ChatRow.ofItem item w.me "sending" topic])).dispatchOutbox clientToken

def retrySend (w : ChatWorld) (clientToken : String) : Option ChatWorld :=
  (w.outbox.find? (·.clientToken = clientToken)).map fun item =>
    (w.setCache item.peer
      (ChatRow.setStatus (w.cache item.peer) clientToken "sending")).dispatchOutbox clientToken

def fetchMessages (w : ChatWorld) : ChatWorld :=
  if w.activePeer = "" then w
  else if w.receiveInFlight then { w with receiveAgain := true }
  else match w.findDialog w.activePeer with
    | none => w
    | some d => { w with
        receiveInFlight := true
        receives := w.receives ++ [⟨w.activePeer, d⟩] }

def work (w : ChatWorld) (i : Nat) (pushed : Bool) (answer : Option (List ChatRow)) :
    Option ChatWorld :=
  w.sends[i]?.bind fun t =>
    if t.result = .running ∧ (answer ≠ none → pushed) then
      let result := match answer with
        | some messages => SendResult.sent (messagesOf t.target messages)
        | none => .failed
      some { w with
        sends := w.sends.set i { t with result }
        pushed := if pushed then w.pushed ++ [⟨t.text, t.target, t.origin⟩] else w.pushed }
    else none

def sendDone (w : ChatWorld) (i : Nat) : Option ChatWorld :=
  w.sends[i]?.bind fun t =>
    let rest : ChatWorld := { w with
      sends := w.sends.eraseIdx i
      sendInFlight := w.sendInFlight.filter (· ≠ t.clientToken) }
    match t.result with
    | .running => none
    | .failed => some (rest.markOutboxFailed t.peer t.clientToken)
    | .sent messages =>
        let rest : ChatWorld :=
          { rest with outbox := w.outbox.filter (·.clientToken ≠ t.clientToken) }
        let sent := rest.append t.peer
          (messages.map fun r => { r with clientToken := some t.clientToken })
        some (if t.peer = w.activePeer then sent.fetchMessages else sent)

/-- The dialogue that is open shows what was received. -/
def received (w : ChatWorld) (i : Nat) (messages : List ChatRow) : Option ChatWorld :=
  w.receives[i]?.map fun t =>
    let w : ChatWorld :=
      { w with receives := w.receives.eraseIdx i, receiveInFlight := false }
    let w := if t.peer = w.activePeer then w.append t.peer (messagesOf t.dialogue messages) else w
    if w.receiveAgain then ({ w with receiveAgain := false } : ChatWorld).fetchMessages else w

def loadHistory (w : ChatWorld) (peer : String) (clearCache : Bool) : ChatWorld :=
  match w.findDialog peer with
  | none => w
  | some d => { w with histories := w.histories ++ [(⟨peer, d⟩, clearCache)] }

def historyLoaded (w : ChatWorld) (i : Nat) (messages : Option (List ChatRow)) :
    Option ChatWorld :=
  w.histories[i]?.map fun t =>
    let w := { w with histories := w.histories.eraseIdx i }
    match messages with
    | none => w
    | some messages =>
        let messages := messagesOf t.1.dialogue messages
        if t.1.peer ≠ w.activePeer then w
        else if t.2 then
          w.setCache t.1.peer
            (ChatRow.reload w.outbox t.1.peer (w.cache t.1.peer) w.me messages)
        else w.append t.1.peer messages

def prefetchAllDialogs (w : ChatWorld) : ChatWorld :=
  match w.active with
  | none => w
  | some p => { w with
      prefetches := w.prefetches ++ [(w.dialogs p).map fun d => ⟨d.peer, ⟨p, d.dialogue⟩⟩] }

def prefetched (w : ChatWorld) (i : Nat) (messages : List (List ChatRow)) : Option ChatWorld :=
  w.prefetches[i]?.map fun tasks =>
    (tasks.zip messages).foldl (fun w t => w.append t.1.peer (messagesOf t.1.dialogue t.2))
      { w with prefetches := w.prefetches.eraseIdx i }

def onSessionReset (w : ChatWorld) : ChatWorld :=
  { w with cache := fun _ => [], activePeer := "", receiveInFlight := false, receiveAgain := false }

def openChat (w : ChatWorld) (peer : String) : ChatWorld :=
  let w := { w with activePeer := peer }
  match w.findDialog peer with
  | none => w
  | some _ => (w.loadHistory peer true).fetchMessages

def removeDialog (w : ChatWorld) (peer : String) : Option ChatWorld :=
  w.active.map fun p => { w with
    dialogs := Function.update w.dialogs p ((w.dialogs p).filter (·.peer ≠ peer))
    cache := Function.update w.cache peer []
    activePeer := if w.activePeer = peer then "" else w.activePeer }

def step (w : ChatWorld) : ChatLabel → Option ChatWorld
  | .sendText clientToken text topic ts => w.sendTextMessage clientToken text topic ts
  | .retrySend clientToken => w.retrySend clientToken
  | .work i pushed answer => w.work i pushed answer
  | .sendDone i => w.sendDone i
  | .fetchMessages => some w.fetchMessages
  | .received i messages => w.received i messages
  | .loadHistory peer clearCache => some (w.loadHistory peer clearCache)
  | .historyLoaded i messages => w.historyLoaded i messages
  | .prefetchAllDialogs => some w.prefetchAllDialogs
  | .prefetched i messages => w.prefetched i messages
  | .openChat peer => some (w.openChat peer)
  | .stopChat => some { w with activePeer := "" }
  | .switchSession profileId => some ({ w with active := some profileId } : ChatWorld).onSessionReset
  | .noSession => some { w with active := none }
  | .setDialogs profileId dialogs =>
      some { w with dialogs := Function.update w.dialogs profileId dialogs }
  | .removeDialog peer => w.removeDialog peer

/-! ## What is kept apart -/

/-- If the label names a dialogue of the active profile, it is this one. -/
def Names (w : ChatWorld) (peer : String) (d : DialogueRef) : Prop :=
  ∀ d' ∈ w.findDialog peer, d = d'

instance (w : ChatWorld) (peer : String) (d : DialogueRef) : Decidable (w.Names peer d) :=
  inferInstanceAs (Decidable (∀ d' ∈ w.findDialog peer, d = d'))

/-- What was composed in a dialogue is pushed to it by the account it was composed with, and the
cache for a label has messages only of the dialogue of the active profile that it names. -/
structure Isolated (w : ChatWorld) : Prop where
  pushed : ∀ x ∈ w.pushed, x.target = x.origin
  shown : ∀ peer, ∀ r ∈ w.cache peer, w.Names peer r.owner

/-- A message is retried, and what a worker brings is delivered, only while its label names its
dialogue in the active profile; and a label comes to name another dialogue of that profile only
when nothing is cached under it. -/
def Undisturbed (w : ChatWorld) : ChatLabel → Prop
  | .retrySend clientToken => ∀ item ∈ w.outbox.find? (·.clientToken = clientToken),
      w.Names item.peer item.origin
  | .sendDone i => ∀ t ∈ w.sends[i]?, w.Names t.peer t.target
  | .received i _ => ∀ t ∈ w.receives[i]?, t.peer = w.activePeer → w.Names t.peer t.dialogue
  | .historyLoaded i _ => ∀ t ∈ w.histories[i]?, t.1.peer = w.activePeer →
      w.Names t.1.peer t.1.dialogue
        ∧ ∀ item ∈ w.outbox, item.peer = t.1.peer → w.Names item.peer item.origin
  | .prefetched i _ => ∀ tasks ∈ w.prefetches[i]?, ∀ t ∈ tasks, w.Names t.peer t.dialogue
  | .setDialogs profileId dialogs => w.active = some profileId → ∀ d ∈ dialogs,
      (∀ d' ∈ dialogs.find? (·.peer = d.peer), w.findDialog d.peer = some ⟨profileId, d'.dialogue⟩)
        ∨ w.cache d.peer = []
  | _ => True

instance (w : ChatWorld) (l : ChatLabel) : Decidable (w.Undisturbed l) :=
  match l with
  | .retrySend clientToken =>
      inferInstanceAs (Decidable (∀ item ∈ w.outbox.find? (·.clientToken = clientToken),
        w.Names item.peer item.origin))
  | .sendDone i => inferInstanceAs (Decidable (∀ t ∈ w.sends[i]?, _))
  | .received i _ => inferInstanceAs (Decidable (∀ t ∈ w.receives[i]?, _ → _))
  | .historyLoaded i _ => inferInstanceAs (Decidable (∀ t ∈ w.histories[i]?, _ → _ ∧ _))
  | .prefetched i _ => inferInstanceAs (Decidable (∀ tasks ∈ w.prefetches[i]?, ∀ t ∈ tasks, _))
  | .setDialogs _ dialogs => inferInstanceAs (Decidable (_ → ∀ d ∈ dialogs, _))
  | .sendText .. | .work .. | .fetchMessages | .loadHistory .. | .prefetchAllDialogs | .openChat _
  | .stopChat | .switchSession _ | .noSession | .removeDialog _ => .isTrue trivial

end ChatWorld

end Paranoia
