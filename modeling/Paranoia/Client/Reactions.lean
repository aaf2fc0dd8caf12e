import Paranoia.Client.Timeline

/-!
# Reactions in the cache of a dialogue

A reaction is a message that names another one. `appendMessages` puts the reactions of a batch aside,
merges the other messages, and then applies each reaction that has not been applied before to the
entry of the message it names, if there is one; of each sender the last that was applied is shown.
What a merge writes over an entry keeps its reactions.
-/

namespace Paranoia

structure ChatReaction where
  id : String
  targetId : String
  emoji : String
  sender : String
  seq : Nat
deriving DecidableEq

namespace ChatReaction

/-- One that says what and whose it is. -/
def Valid (r : ChatReaction) : Prop := r.targetId ≠ "" ∧ r.emoji ≠ "" ∧ r.sender ≠ ""

instance (r : ChatReaction) : Decidable r.Valid := inferInstanceAs (Decidable (_ ∧ _))

end ChatReaction

/-- A batch with its reactions put aside. -/
structure ChatBatch where
  messages : List TimelineRow
  reactions : List ChatReaction
deriving DecidableEq

/-- Whose reaction it is, and the reaction. -/
abbrev ReactionEvent := String × String

structure ReactedRow where
  row : TimelineRow
  events : List ReactionEvent
deriving DecidableEq

structure ReactionCache where
  cache : List ReactedRow
  appliedReactions : List String
deriving DecidableEq

namespace ReactionCache

def empty : ReactionCache := ⟨[], []⟩

def rows (w : ReactionCache) : List TimelineRow := w.cache.map ReactedRow.row

/-- The reactions of a batch that have not been applied, and the ids of those that have been now. -/
def freshReactions (applied : List String) : List ChatReaction → List ChatReaction × List String
  | [] => ([], applied)
  | r :: rs =>
      if r.id ≠ "" ∧ r.id ∈ applied then freshReactions applied rs
      else
        let (fresh, applied) := freshReactions (if r.id = "" then applied else r.id :: applied) rs
        (r :: fresh, applied)

/-- The event of the sender is replaced, or there is one more. -/
def upsertEvent (sender emoji : String) : List ReactionEvent → List ReactionEvent
  | [] => [(sender, emoji)]
  | event :: events =>
      if event.1 = sender then (sender, emoji) :: events
      else event :: upsertEvent sender emoji events

def applyReactionToCache (idToIndex : List (String × Nat)) (events : List (List ReactionEvent))
    (r : ChatReaction) : List (List ReactionEvent) :=
  if r.Valid then
    match idToIndex.lookup r.targetId with
    | none => events
    | some i => events.modify i (upsertEvent r.sender r.emoji)
  else events

/-- An entry that a message is written over keeps its events; a new one has none. -/
def addMessage (pendingTextToIndex : List (String × Nat)) (myId : String)
    (s : TimelineRow.Merge × List (List ReactionEvent)) (r : TimelineRow) :
    TimelineRow.Merge × List (List ReactionEvent) :=
  (s.1.add pendingTextToIndex myId r,
    match s.1.find pendingTextToIndex myId r with
    | some _ => s.2
    | none => s.2 ++ [[]])

def sortByTs (cache : List ReactedRow) : List ReactedRow :=
  cache.insertionSort fun a b => a.row.ts ≤ b.row.ts

def appendMessages (myId : String) (w : ReactionCache) (b : ChatBatch) : ReactionCache :=
  if b.messages = [] ∧ b.reactions = [] then w
  else
    let (fresh, applied) := freshReactions w.appliedReactions b.reactions
    let (merge, events) := b.messages.foldl
      (addMessage (Places.indexBy TimelineRow.pendingKey w.rows) myId)
      (TimelineRow.Merge.ofCache w.rows, w.cache.map ReactedRow.events)
    let events := fresh.foldl (applyReactionToCache merge.idToIndex) events
    let cache := sortByTs (List.zipWith ReactedRow.mk merge.cache events)
    ⟨cache.drop (cache.length - TimelineRow.maxCachedPerPeer), applied⟩

/-- What is shown of the events; what is said twice is shown once. -/
def reactionsForEvents (seen : List ReactionEvent) : List ReactionEvent → List ReactionEvent
  | [] => []
  | event :: events =>
      if event.2 = "" ∨ event.1 = "" ∨ event ∈ seen then reactionsForEvents seen events
      else event :: reactionsForEvents (event :: seen) events

def after (myId : String) (batches : List ChatBatch) : ReactionCache :=
  batches.foldl (appendMessages myId) empty

end ReactionCache

/-! ## What is to be shown -/

/-- No reaction of the sender to the message has a greater number. -/
def Latest (given : List ChatReaction) (r : ChatReaction) : Prop :=
  r ∈ given ∧ ∀ r' ∈ given, r'.targetId = r.targetId → r'.sender = r.sender → r'.seq ≤ r.seq

/-- Each message of the cache shows the latest reaction of each sender, and nothing else. -/
def ShowsLatest (given : List ChatReaction) (w : ReactionCache) : Prop :=
  ∀ entry ∈ w.cache, ∀ sender emoji,
    (sender, emoji) ∈ ReactionCache.reactionsForEvents [] entry.events ↔
      ∃ r, Latest given r ∧ r.targetId = entry.row.id ∧ r.sender = sender ∧ r.emoji = emoji

/-- The messages and the reactions of a dialogue: told apart by their ids and numbers. -/
structure OfDialogue (messages : List TimelineRow) (reactions : List ChatReaction) : Prop where
  numbered : ∀ m ∈ messages, m.Numbered
  apart : ∀ m ∈ messages, ∀ m' ∈ messages, m.id = m'.id ∨ m.seq = m'.seq → m = m'
  named : ∀ r ∈ reactions, r.id ≠ ""
  told : ∀ r ∈ reactions, ∀ r' ∈ reactions, r.id = r'.id ∨ r.seq = r'.seq → r = r'

/-- The last reaction of the sender to the message among these. -/
def lastOfSender (reactions : List ChatReaction) (targetId sender : String) : Option ChatReaction :=
  (reactions.filter fun r => r.Valid ∧ r.targetId = targetId ∧ r.sender = sender).getLast?

/-- A batch that comes in order: the last of the reactions it is the first to bring is the latest of
its sender to its message; and to a message that it brings into the cache no sender has reacted
before without reacting in it. -/
def InOrder (w : ReactionCache) (given : List ChatReaction) (b : ChatBatch) : Prop :=
  let fresh := (ReactionCache.freshReactions w.appliedReactions b.reactions).1
  ∀ m, m ∈ b.messages ∨ m ∈ w.rows → ∀ sender,
    match lastOfSender fresh m.id sender with
    | some r => ∀ r', Latest (given ++ b.reactions.filter (·.Valid)) r' → r'.targetId = m.id →
        r'.sender = sender → r'.emoji = r.emoji
    | none => m ∈ w.rows ∨ ∀ r ∈ given, ¬ (r.targetId = m.id ∧ r.sender = sender)

end Paranoia
