import Mathlib.Data.List.Sort
import Mathlib.Logic.Function.Basic
import Paranoia.Lib.Lts
import Paranoia.Client.Receive
import Paranoia.Client.Outgoing

/-!
# A new key for a dialogue

Both parties of a dialogue confirm one key exchange, each when its user does. A worker reads the
cursor of the dialogue, and the GUI thread puts the new key into the keyring from the number after
it on. A call of the library has the keyring that there was when it was begun.

Numbers are natural numbers here; below 2^53 a keyring is the same after it has been through JSON.
-/

namespace Paranoia

variable {κ π : Type}

/-! ## Keyrings -/

/-- The first entry that starts where this one does is replaced. -/
def replaceEntry (entry : DialogueKeyEntry κ) :
    List (DialogueKeyEntry κ) → Option (List (DialogueKeyEntry κ))
  | [] => none
  | e :: keyring =>
      if e.startSeq = entry.startSeq then some (entry :: keyring)
      else (replaceEntry entry keyring).map (e :: ·)

def sortEntries (keyring : List (DialogueKeyEntry κ)) : List (DialogueKeyEntry κ) :=
  keyring.insertionSort fun a b => a.startSeq ≤ b.startSeq

/-- What `upsertDialogKeyringEntry` does with the keyring of a dialogue. -/
def upsertEntry (keyring : List (DialogueKeyEntry κ)) (entry : DialogueKeyEntry κ) :
    List (DialogueKeyEntry κ) :=
  sortEntries ((replaceEntry entry keyring).getD (keyring ++ [entry]))

/-- No entry starts at 0 or where the one before it does. -/
def startsApart (previous : Option Nat) : List (DialogueKeyEntry κ) → Bool
  | [] => true
  | e :: keyring =>
      e.startSeq ≠ 0 ∧ previous ≠ some e.startSeq ∧ startsApart (some e.startSeq) keyring

def normalizeKeyring (keyring : List (DialogueKeyEntry κ)) : Option (List (DialogueKeyEntry κ)) :=
  if keyring = [] then none
  else
    let keyring := sortEntries keyring
    if startsApart none keyring then some keyring else none

/-! ## Two parties -/

inductive Side where
  | a
  | b
deriving DecidableEq

def Side.other : Side → Side
  | .a => .b
  | .b => .a

/-- A packet, and the key it was sealed with. -/
structure KeyedPacket (κ π : Type) where
  packet : RawPacket π
  sender : Side
  key : κ

/-- The configuration a call was begun with. -/
structure KeyedCall (κ : Type) where
  client : Client κ
  /-- Whether its side had the new key by then. -/
  rotated : Bool

/-- How far a side is with confirming. -/
inductive Confirmation where
  | unconfirmed
  | reading
  | read (startSeq : Nat)
  | done (startSeq : Nat)
deriving DecidableEq

/-- From which number on the new key is in the keyring, if it is. -/
def Confirmation.startSeq? : Confirmation → Option Nat
  | .done startSeq => some startSeq
  | _ => none

/-- The number that was read and has not been used yet. -/
def Confirmation.cursor? : Confirmation → Option Nat
  | .read startSeq => some startSeq
  | _ => none

structure RotationSide (κ π : Type) where
  keyring : List (DialogueKeyEntry κ)
  store : LocalStore
  receives : List (KeyedCall κ × Receive π)
  sends : List (KeyedCall κ)
  confirmation : Confirmation

structure RotationWorld (κ π : Type) where
  side : Side → RotationSide κ π
  /-- What the server has of the dialogue. -/
  packets : List (KeyedPacket κ π)
  /-- All that it has ever had. -/
  pushed : List (KeyedPacket κ π)

structure RotationConfig (κ : Type) where
  /-- The two clients, but for their keyrings. -/
  account : Side → Client κ
  sessionKey : κ

inductive RotationLabel where
  | receive (s : Side)
  /-- The server may answer with any map. -/
  | map (s : Side) (i : Nat) (m : MapResult)
  | pull (s : Side) (i : Nat)
  | localStep (s : Side) (i : Nat) (now : Int)
  | send (s : Side)
  /-- A packet of a send, an upload or a resume. -/
  | push (s : Side) (i nonce seq : Nat) (inner : PacketInner)
  | delete (seq : Nat)
  /-- The cursor is moved by something else. -/
  | setCursor (s : Side) (seq : Nat)
  | confirm (s : Side)
  /-- The cursor is read; if it cannot be, it is 0. -/
  | lastPulledSeq (s : Side) (ok : Bool)
  | upsert (s : Side)
deriving DecidableEq

namespace RotationSide

/-- A call is begun with the keyring there is. -/
def call (st : RotationSide κ π) (account : Client κ) : Option (KeyedCall κ) :=
  (normalizeKeyring st.keyring).map fun keyring =>
    ⟨{ account with keyring }, st.confirmation.startSeq?.isSome⟩

/-- A `receive` goes on; one that fails is over. -/
def onReceive (st : RotationSide κ π) (i : Nat)
    (f : KeyedCall κ → Receive π → Option (LocalStore × Except Fault (Receive π))) :
    Option (RotationSide κ π) :=
  st.receives[i]?.bind fun t => (f t.1 t.2).map fun
    | (store, .ok run) => { st with store, receives := st.receives.set i (t.1, run) }
    | (store, .error _) => { st with store, receives := st.receives.eraseIdx i }

end RotationSide

namespace RotationWorld

def onSide (w : RotationWorld κ π) (s : Side)
    (f : RotationSide κ π → Option (RotationSide κ π)) : Option (RotationWorld κ π) :=
  (f (w.side s)).map fun st => { w with side := Function.update w.side s st }

/-- The packets that a pull of these numbers returns. -/
def pulled (w : RotationWorld κ π) (first last : Nat) : List (RawPacket π) :=
  (w.packets.map KeyedPacket.packet).filter fun p => first ≤ p.seq ∧ p.seq ≤ last

variable [Aead κ π]

/-- The server takes a packet whose number is not used. -/
def push (w : RotationWorld κ π) (s : Side) (i nonce seq : Nat) (inner : PacketInner) :
    Option (RotationWorld κ π) :=
  (w.side s).sends[i]?.bind fun c =>
    if ∀ p ∈ w.pushed, p.packet.seq ≠ seq then
      (keyForSeq c.client.keyring seq).map fun key =>
        let p := ⟨⟨seq, Aead.encrypt key nonce inner⟩, s, key⟩
        { w with packets := w.packets ++ [p], pushed := w.pushed ++ [p] }
    else none

def step (cfg : RotationConfig κ) (w : RotationWorld κ π) :
    RotationLabel → Option (RotationWorld κ π)
  | .receive s => w.onSide s fun st => (st.call (cfg.account s)).map fun c =>
      { st with receives := st.receives ++ [(c, Receive.start)] }
  | .map s i m => w.onSide s fun st => st.onReceive i fun _ r =>
      match r.point with
      | .map _ => some (st.store, .ok (r.onMap m))
      | _ => none
  | .pull s i => w.onSide s fun st => st.onReceive i fun _ r =>
      match r.point with
      | .pull seq stop todo =>
          some (st.store, .ok (r.onPull (w.pulled seq (Receive.batchEnd seq stop)) seq stop todo))
      | _ => none
  | .localStep s i now => w.onSide s fun st => st.onReceive i fun c r =>
      r.localStep c.client now st.store
  | .send s => w.onSide s fun st => (st.call (cfg.account s)).map fun c =>
      { st with sends := st.sends ++ [c] }
  | .push s i nonce seq inner => w.push s i nonce seq inner
  | .delete seq => some { w with packets := w.packets.filter (·.packet.seq ≠ seq) }
  | .setCursor s seq => w.onSide s fun st =>
      some { st with store := st.store.setLastPulledSeq (cfg.account s).key seq }
  | .confirm s => w.onSide s fun st =>
      if st.confirmation = .unconfirmed then some { st with confirmation := .reading } else none
  | .lastPulledSeq s ok => w.onSide s fun st =>
      if st.confirmation = .reading then
        let last := if ok then st.store.getLastPulledSeq (cfg.account s).key else 0
        some { st with confirmation := .read (last + 1) }
      else none
  | .upsert s => w.onSide s fun st =>
      match st.confirmation with
      | .read startSeq => some { st with
          keyring := upsertEntry st.keyring ⟨startSeq, cfg.sessionKey⟩
          confirmation := .done startSeq }
      | _ => none

/-- The number from which on a side has the new key. -/
def startOf (w : RotationWorld κ π) (s : Side) : Option Nat := (w.side s).confirmation.startSeq?

/-- The number from which on somebody has. -/
def switch (w : RotationWorld κ π) : Option Nat := w.startOf .a <|> w.startOf .b

/-- The packet that a `receive` is about to process. -/
def atHand (r : Receive π) : Option (RawPacket π) :=
  match r.point with
  | .packet pkt _ _ _ _ => some pkt
  | _ => none

/-- The first side to take the new key does so from a number on at which nothing was pushed, the
second from the same one; and packets from it on are pushed and processed by calls that have the
new key. -/
def Coordinated (w : RotationWorld κ π) : RotationLabel → Prop
  | .upsert s => ∀ startSeq ∈ (w.side s).confirmation.cursor?,
      (∀ other ∈ w.startOf s.other, startSeq = other)
        ∧ (w.startOf s.other = none → ∀ p ∈ w.pushed, p.packet.seq < startSeq)
  | .push s i _ seq _ => ∀ c ∈ (w.side s).sends[i]?, ∀ start ∈ w.switch, start ≤ seq → c.rotated
  | .localStep s i _ => ∀ t ∈ (w.side s).receives[i]?, ∀ pkt ∈ atHand t.2, ∀ start ∈ w.switch,
      start ≤ pkt.seq → t.1.rotated
  | _ => True

instance (w : RotationWorld κ π) (l : RotationLabel) : Decidable (w.Coordinated l) :=
  match l with
  | .upsert s => inferInstanceAs (Decidable (∀ startSeq ∈ (w.side s).confirmation.cursor?, _ ∧ _))
  | .push s i _ _ _ => inferInstanceAs (Decidable (∀ c ∈ (w.side s).sends[i]?, _))
  | .localStep s i _ => inferInstanceAs (Decidable (∀ t ∈ (w.side s).receives[i]?, _))
  | .receive _ | .map .. | .pull .. | .send _ | .delete _ | .setCursor .. | .confirm _
  | .lastPulledSeq .. => .isTrue trivial

/-- Each live packet has the key that the recipient selects for it. -/
def Agree (w : RotationWorld κ π) : Prop :=
  ∀ p ∈ w.packets, keyForSeq (w.side p.sender.other).keyring p.packet.seq = some p.key

instance [DecidableEq κ] (w : RotationWorld κ π) : Decidable w.Agree :=
  inferInstanceAs (Decidable (∀ p ∈ w.packets, _ = _))

end RotationWorld

end Paranoia
