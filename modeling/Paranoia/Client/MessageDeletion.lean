import Mathlib.Data.List.Sort
import Paranoia.Client.LocalStore

/-!
# Deleting selected messages

`deleteMessages` looks the selected messages up in the cache and asks for the numbers they have, and
for the numbers their attachments claim. The ranges are joined where they touch and deleted one by
one, on the server first and then locally; a range that fails does not hold up the next one. Only
if none has failed do the messages leave the cache.
-/

namespace Paranoia

structure SeqRange where
  fromSeq : Nat
  toSeq : Nat
deriving DecidableEq

namespace SeqRange

def Has (r : SeqRange) (seq : Nat) : Prop := r.fromSeq ≤ seq ∧ seq ≤ r.toSeq

instance (r : SeqRange) (seq : Nat) : Decidable (r.Has seq) := inferInstanceAs (Decidable (_ ∧ _))

/-- The loop of `mergeRanges`, at the range that is being made. `quint64` wraps around. -/
def mergeFrom (last : SeqRange) : List SeqRange → List SeqRange
  | [] => [last]
  | cur :: rest =>
      if cur.fromSeq ≤ (last.toSeq + 1) % u64Size then
        mergeFrom ⟨last.fromSeq, max last.toSeq cur.toSeq⟩ rest
      else last :: mergeFrom cur rest

/-- Which of two ranges with one beginning comes first makes no difference. -/
def mergeRanges (ranges : List SeqRange) : List SeqRange :=
  match ranges.insertionSort fun a b => a.fromSeq ≤ b.fromSeq with
  | [] => []
  | first :: rest => mergeFrom first rest

end SeqRange

/-- What the cache says of a message where it is deleted; `0` stands for a missing number. -/
structure CachedMessage where
  id : String
  seq : Nat
  bodyFromSeq : Nat
  bodyToSeq : Nat
deriving DecidableEq

namespace CachedMessage

def ranges (m : CachedMessage) : List SeqRange :=
  if m.seq = 0 then []
  else ⟨m.seq, m.seq⟩ :: if 0 < m.bodyFromSeq ∧ m.bodyFromSeq ≤ m.bodyToSeq then
    [⟨m.bodyFromSeq, m.bodyToSeq⟩] else []

/-- A number its attachment claims. -/
def Claims (m : CachedMessage) (seq : Nat) : Prop :=
  0 < m.bodyFromSeq ∧ m.bodyFromSeq ≤ seq ∧ seq ≤ m.bodyToSeq

end CachedMessage

/-- How the call for a range ends. -/
inductive RangeOutcome where
  /-- The server has not deleted. -/
  | refused
  /-- The server has deleted, but its answer did not arrive. -/
  | unanswered
  /-- The server has deleted, the database has not. -/
  | localFailed
  | deleted
deriving DecidableEq

/-- A dialogue as it is on the server, in the database and in the window. -/
structure DialogueView where
  /-- The numbers of its packets. -/
  server : List Nat
  store : LocalStore
  cache : List CachedMessage

namespace DialogueView

variable (key : DialogueKey)

def removeServerRange (v : DialogueView) (r : SeqRange) : DialogueView :=
  { v with server := v.server.filter fun s => ¬ (max r.fromSeq 1 ≤ s ∧ s ≤ r.toSeq) }

def deleteLocalRange (v : DialogueView) (r : SeqRange) : DialogueView :=
  if r.toSeq = 0 ∨ r.fromSeq ≠ 0 ∧ r.toSeq < r.fromSeq then v
  else
    let seqs := (v.store.getDeliveredServerSeqs key).filter fun s =>
      max r.fromSeq 1 ≤ s ∧ s ≤ r.toSeq
    { v with store := v.store.deleteMessagesBySeqs key seqs }

/-- `paranoia_delete_dialogue_range_keyring`. -/
def deleteDialogueRange (v : DialogueView) (r : SeqRange) (outcome : RangeOutcome) :
    DialogueView × Bool :=
  if r.toSeq = 0 then (v, false)
  else match outcome with
    | .refused => (v, false)
    | .unanswered => (v.removeServerRange r, false)
    | .localFailed => (v.removeServerRange r, false)
    | .deleted => ((v.removeServerRange r).deleteLocalRange key r, true)

/-- The ranges one after the other; how many have failed. -/
def deleteRanges : DialogueView → List (SeqRange × RangeOutcome) → DialogueView × Nat
  | v, [] => (v, 0)
  | v, (r, outcome) :: rest =>
      let (v, ok) := v.deleteDialogueRange key r outcome
      let (v, failed) := deleteRanges v rest
      (v, if ok then failed else failed + 1)

/-- What `deleteMessages` asks for. -/
def selectedRanges (v : DialogueView) (messageIds : List String) : List SeqRange :=
  SeqRange.mergeRanges ((v.cache.filter (·.id ∈ messageIds)).flatMap CachedMessage.ranges)

/-- `outcome` says how the calls end, the first one first. -/
def deleteMessages (v : DialogueView) (messageIds : List String) (outcome : Nat → RangeOutcome) :
    DialogueView :=
  let ranges := v.selectedRanges messageIds
  if ranges.isEmpty then v
  else
    let (v, failed) := v.deleteRanges key (ranges.zipIdx.map fun (r, i) => (r, outcome i))
    if failed = 0 then { v with cache := v.cache.filter (·.id ∉ messageIds) } else v

end DialogueView

/-! ## What is to be deleted -/

/-- Whose packets the numbers are: the message a packet is, or whose transfer it is a chunk of. In a
window that is up to date the cache shows messages that are stored, and a stored message has the
number of a packet of its own. -/
structure DialogueView.Of (key : DialogueKey) (owner : Nat → Option String) (v : DialogueView) :
    Prop where
  own : ∀ row ∈ v.store.messages, row.dialogue = key → ∀ s, row.serverSeq = some s →
    owner s = some row.id
  stored : ∀ m ∈ v.cache, m.seq ≠ 0 → ∃ row ∈ v.store.messages,
    row.dialogue = key ∧ row.serverSeq = some m.seq ∧ row.id = m.id

namespace DialogueView

variable (key : DialogueKey) (owner : Nat → Option String)

/-- The numbers of the selected messages and of their own chunks. -/
def OfSelected (v : DialogueView) (messageIds : List String) (seq : Nat) : Prop :=
  ∃ m ∈ v.cache, m.id ∈ messageIds ∧ m.seq ≠ 0 ∧ owner seq = some m.id

/-- The call for a range has failed. -/
def SomeFails (v : DialogueView) (messageIds : List String) (outcome : Nat → RangeOutcome) : Prop :=
  ∃ i < (v.selectedRanges messageIds).length, outcome i ≠ .deleted

structure DeletesSelected (v : DialogueView) (messageIds : List String)
    (outcome : Nat → RangeOutcome) : Prop where
  asked : ∀ s, (∃ r ∈ v.selectedRanges messageIds, r.Has s) ↔ v.OfSelected owner messageIds s
  server : ∀ s ∈ v.server, (∀ id ∈ messageIds, owner s ≠ some id) →
    s ∈ (v.deleteMessages key messageIds outcome).server
  store : ∀ row ∈ v.store.messages, (row.dialogue = key → row.id ∉ messageIds) →
    row ∈ (v.deleteMessages key messageIds outcome).store.messages
  cache : ∀ m ∈ v.cache, m.id ∉ messageIds → m ∈ (v.deleteMessages key messageIds outcome).cache
  /-- After a failure the cache shows what is still stored. -/
  shown : v.SomeFails messageIds outcome → ∀ m ∈ v.cache, m.seq ≠ 0 →
    (m ∈ (v.deleteMessages key messageIds outcome).cache ↔
      ∃ row ∈ (v.deleteMessages key messageIds outcome).store.messages,
        row.dialogue = key ∧ row.serverSeq = some m.seq ∧ row.id = m.id)

/-- A range with the number is deleted. -/
def Gone (v : DialogueView) (messageIds : List String) (outcome : Nat → RangeOutcome) (seq : Nat) :
    Prop :=
  ∃ (i : Nat) (r : SeqRange),
    (v.selectedRanges messageIds)[i]? = some r ∧ outcome i = .deleted ∧ r.Has seq

/-- What the selected messages and their attachments claim is theirs, and all that is theirs; no
other message is stored as delivered at such a number; and no range fails, unless all that is shown
is stored and those that are deleted hold none of it. -/
structure Deletable (v : DialogueView) (messageIds : List String) (outcome : Nat → RangeOutcome) :
    Prop where
  claimed : ∀ m ∈ v.cache, m.id ∈ messageIds → m.seq ≠ 0 → ∀ s, s = m.seq ∨ m.Claims s →
    v.OfSelected owner messageIds s
  all : ∀ s, v.OfSelected owner messageIds s → ∃ m ∈ v.cache, m.id ∈ messageIds ∧ m.seq ≠ 0 ∧
    (s = m.seq ∨ m.Claims s)
  apart : ∀ row ∈ v.store.messages, row.dialogue = key → row.id ∉ messageIds →
    ∀ s, row.serverSeq = some s → s ∈ v.store.getDeliveredServerSeqs key →
      v.OfSelected owner messageIds s → ¬ v.Gone messageIds outcome s
  whole : v.SomeFails messageIds outcome → ∀ m ∈ v.cache, m.seq ≠ 0 →
    (∃ row ∈ v.store.messages, row.dialogue = key ∧ row.serverSeq = some m.seq ∧ row.id = m.id)
    ∧ (m.seq ∈ v.store.getDeliveredServerSeqs key → ¬ v.Gone messageIds outcome m.seq)

end DialogueView

end Paranoia
