import Paranoia.Lib.Lts
import Paranoia.Server.KeyOps

/-!
# Pruning the dialogues of deleted users

The administrator deletes what the server keeps of dialogues one of whose participants is no
longer registered. The handler reads the users, lists the dialogues the store has packets of, and
goes through that list: unless a dialogue is one of two of the users it has read, it looks for the
keys of its packets and then deletes them in one batch. Users are registered and deleted
meanwhile, and packets pushed, each admitted before it is written.
-/

namespace Paranoia

/-- The dialogues of every two users, and of every user alone. -/
def validDialogueIds (hash : String → DialogueId) : List String → List (List Char)
  | [] => []
  | a :: users =>
      (makeDialogueId hash a a).text :: users.map (fun b => (makeDialogueId hash a b).text)
        ++ validDialogueIds hash users

/-! ## The requests -/

/-- A packet that was admitted and is still to be written. -/
structure AdmittedPush where
  dialogueId : DialogueId
  seq : Nat
  payload : List UInt8
  bounded : seq < u64Size

/-- Where a prune is: it has read the users, it goes through the dialogues that are left, it has
the keys of one of them, or it has answered. `pruned` is what it will report. -/
inductive PrunePoint where
  | listing (valid : List (List Char))
  | deleting (valid all pruned : List (List Char))
  | writing (valid : List (List Char)) (id : List Char) (batch all pruned : List (List Char))
  | answered (pruned : List (List Char))
  | failed (error : String)
deriving DecidableEq

structure PruneWorld where
  users : List String
  store : KeyStore (List UInt8)
  pushes : List AdmittedPush
  prunes : List PrunePoint

inductive PruneLabel where
  | reg (username : String)
  | delete (username : String)
  /-- A push is found to be between two registered users, and is then written. -/
  | accept (sender recver : String) (seq : Nat) (payload : List UInt8)
  | write (j : Nat)
  /-- The server writes something that is no packet. -/
  | other (key : StoreKey) (value : List UInt8)
  | prune
  | run (i : Nat)
  /-- The store fails what a prune asks of it. -/
  | storeError (i : Nat) (error : String)

namespace PruneWorld

def init (users : List String) (store : KeyStore (List UInt8)) : PruneWorld :=
  ⟨users, store, [], []⟩

def setPrune (w : PruneWorld) (i : Nat) (p : PrunePoint) : PruneWorld :=
  { w with prunes := w.prunes.set i p }

local instance lawfulPrunedKey : LawfulBEq (List Char) := inferInstance

def stepPrune (w : PruneWorld) (i : Nat) : PrunePoint → Option PruneWorld
  | .listing valid =>
      some (w.setPrune i (.deleting valid (w.store.listDialogues.map (·.1)) []))
  | .deleting _ [] pruned => some (w.setPrune i (.answered pruned))
  | .deleting valid (id :: all) pruned =>
      if id ∈ valid then some (w.setPrune i (.deleting valid all pruned))
      else match w.store.rangeBatch id 0 (u64Size - 1) with
        | .error _ => some (w.setPrune i (.deleting valid all pruned))
        | .ok batch => some (w.setPrune i (.writing valid id batch all pruned))
  | .writing valid id batch all pruned =>
      some ({ w with store := w.store.deleteBatch batch }.setPrune i
        (.deleting valid all (pruned ++ [id])))
  | .answered _ => none
  | .failed _ => none

/-- A dialogue that cannot be deleted is passed over. -/
def failPrune (w : PruneWorld) (i : Nat) (error : String) : PrunePoint → Option PruneWorld
  | .listing _ => some (w.setPrune i (.failed ("store_error: " ++ error)))
  | .deleting valid (id :: all) pruned =>
      if id ∈ valid then none else some (w.setPrune i (.deleting valid all pruned))
  | .writing valid _ _ all pruned => some (w.setPrune i (.deleting valid all pruned))
  | _ => none

def writePush (w : PruneWorld) (j : Nat) (p : AdmittedPush) : PruneWorld :=
  { w with
    store := (w.store.push p.dialogueId p.seq p.bounded p.payload).toOption.getD w.store
    pushes := w.pushes.eraseIdx j }

def step (hash : String → DialogueId) (w : PruneWorld) : PruneLabel → Option PruneWorld
  | .reg username =>
      if username ∈ w.users then none else some { w with users := w.users ++ [username] }
  | .delete username => some { w with users := w.users.filter (· ≠ username) }
  | .accept sender recver seq payload =>
      if h : seq < u64Size then
        if recver ∈ w.users ∧ sender ∈ w.users then
          some { w with
            pushes := w.pushes ++ [⟨makeDialogueId hash sender recver, seq, payload, h⟩] }
        else none
      else none
  | .write j => (w.pushes[j]?).map (w.writePush j)
  | .other key value =>
      if h : key.isPacket = false ∧ key.Bounded then
        some { w with store := w.store.put key h.2 value }
      else none
  | .prune => some { w with prunes := w.prunes ++ [.listing (validDialogueIds hash w.users)] }
  | .run i => (w.prunes[i]?).bind (w.stepPrune i)
  | .storeError i error => (w.prunes[i]?).bind (w.failPrune i error)

end PruneWorld

end Paranoia
