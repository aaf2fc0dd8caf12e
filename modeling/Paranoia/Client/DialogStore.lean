import Mathlib.Logic.Function.Basic
import Paranoia.Client.Dialogs
import Paranoia.Lib.Lts

/-!
# Where the dialogues of a profile are kept

A profile that is logged in has a session with the list of its dialogues. What changes the list
hands a snapshot of it to the queue of the session, and a worker writes the newest snapshot to
`dialogs.json`. A login reads that file on a worker and takes over what it has read when it gets to
the GUI thread; an import writes the file itself.

A session that another has taken the place of still has its queue, and callbacks that hold it go
on saving it. Writing is taken not to fail.
-/

namespace Paranoia

/-- A first position as it is read back from JSON, where it has been a double. -/
structure JsonNumbers where
  reread : UInt64 → Option UInt64
  /-- A double is exact up to 53 bits. -/
  exact : ∀ n : UInt64, n.toNat < 2 ^ 53 → reread n = some n

namespace Dialogs

def rereadKey (numbers : JsonNumbers) (e : DialogKeyEntry) : Option DialogKeyEntry :=
  if e.key.length = 32 ∧ e.startSeq ≠ 0 then
    ((numbers.reread e.startSeq).filter (· ≠ 0)).map fun startSeq => { e with startSeq }
  else none

/-- What `loadFromPath` makes of what `saveToPath` has written. -/
def reload (numbers : JsonNumbers) (dialogs : List Dialog) : List Dialog :=
  (dialogs.filter (·.peer ≠ "")).map fun d =>
    { d with keyring := sorted (d.keyring.filterMap (rereadKey numbers)) }

def setLocalName (dialogs : List Dialog) (peer name : String) : List Dialog :=
  match dialogs.findIdx? (·.peer = peer) with
  | some i => dialogs.modify i fun d => { d with localName := trimmed name }
  | none => dialogs

/-- A key entry of an import. -/
structure ImportedKey where
  peer : String
  peerServerId : String
  key : List UInt8
  startSeq : UInt64
deriving DecidableEq

/-- Entries that are no good are left out. -/
def importKey (dialogs : List Dialog) (e : ImportedKey) : List Dialog :=
  if e.peer = "" ∨ e.startSeq = 0 ∨ e.key.length ≠ 32 then dialogs
  else mergeKeyringEntry dialogs e.peer e.peerServerId e.key e.startSeq

def importKeys (dialogs : List Dialog) (keys : List ImportedKey) : List Dialog :=
  keys.foldl importKey dialogs

end Dialogs

/-- What the user or the server changes in the dialogues of the active session. -/
inductive DialogEdit where
  | upsert (peer peerServerId : String) (sessionKey : List UInt8) (startSeq : UInt64)
      (resetKeyring : Bool)
  | rosterNames (roster : List (String × String))
  | corporateKeyring (roster : List (String × String)) (keyring : List Dialogs.CorporateKey)
  | remove (peer : String)
  | localName (peer name : String)

def DialogEdit.apply (dialogs : List Dialog) : DialogEdit → List Dialog
  | .upsert peer peerServerId sessionKey startSeq resetKeyring =>
      Dialogs.upsertDialogKeyringEntry dialogs peer peerServerId sessionKey startSeq resetKeyring
  | .rosterNames roster => Dialogs.applyCorporateRosterNames dialogs roster
  | .corporateKeyring roster keyring => Dialogs.applyCorporateKeyring dialogs roster keyring
  | .remove peer => Dialogs.removeDialog dialogs peer
  | .localName peer name => Dialogs.setLocalName dialogs peer name

/-- A session with its queue of saves. -/
structure SessionObject where
  dialogs : List Dialog
  pending : Option (List Dialog)
  running : Bool
  /-- The snapshot that the worker has taken and not yet written. -/
  writing : Option (List Dialog)
deriving DecidableEq

namespace SessionObject

def ofList (dialogs : List Dialog) : SessionObject := ⟨dialogs, none, false, none⟩

/-- A snapshot takes the place of one that no worker has taken. -/
def saveDialogs (s : SessionObject) : SessionObject :=
  { s with pending := some s.dialogs, running := true }

/-- The list changes, and is saved if it did. -/
def change (s : SessionObject) (dialogs : List Dialog) : SessionObject :=
  if dialogs = s.dialogs then s else { s with dialogs := dialogs }.saveDialogs

/-- There is something to be written. -/
def Busy (s : SessionObject) : Prop := s.pending ≠ none ∨ s.writing ≠ none

instance (s : SessionObject) : Decidable s.Busy := inferInstanceAs (Decidable (_ ∨ _))

/-- The last that there is to be written. -/
def newest (s : SessionObject) : Option (List Dialog) := s.pending <|> s.writing

end SessionObject

structure ProfileStore where
  /-- What was last written to `dialogs.json`. -/
  disk : List Dialog
  /-- All sessions there have been, of which one at most is in the store. -/
  sessions : List SessionObject
  live : Option Nat
  /-- The logins under way, with what they have read. -/
  logins : List (Option (List Dialog))
  /-- All changes made to one list. -/
  intended : List Dialog
deriving DecidableEq

inductive StoreLabel where
  | edit (e : DialogEdit)
  /-- Something else about a dialogue was changed; a callback may hold any session. -/
  | save (i : Nat)
  | take (i : Nat)
  | write (i : Nat)
  | rest (i : Nat)
  | startLogin
  | readDialogs (i : Nat)
  | loginFails (i : Nat)
  | finishLogin (i : Nat) (serverId : String) (derived : Vector UInt8 32)
  | removeSession

namespace ProfileStore

def update (st : ProfileStore) (i : Nat) (f : SessionObject → Option SessionObject) :
    Option ProfileStore :=
  (st.sessions[i]?.bind f).map fun s => { st with sessions := st.sessions.set i s }

def liveDialogs (st : ProfileStore) : Option (List Dialog) :=
  (st.live.bind fun i => st.sessions[i]?).map SessionObject.dialogs

def edit (st : ProfileStore) (e : DialogEdit) : Option ProfileStore :=
  st.live.bind fun i =>
    (st.update i fun s => some (s.change (e.apply s.dialogs))).map fun st' =>
      { st' with intended := e.apply st.intended }

def write (st : ProfileStore) (i : Nat) : Option ProfileStore :=
  st.sessions[i]?.bind fun s => s.writing.map fun l =>
    { st with disk := l, sessions := st.sessions.set i { s with writing := none } }

/-- A new session takes the place of the old one, with the list that was read. -/
def finishLogin (st : ProfileStore) (i : Nat) (serverId : String) (derived : List UInt8) :
    Option ProfileStore :=
  st.logins[i]?.join.map fun l =>
    { st with
      sessions := st.sessions ++ [(SessionObject.ofList l).change (Dialogs.login l serverId derived)]
      live := some st.sessions.length
      logins := st.logins.eraseIdx i
      intended := Dialogs.login st.intended serverId derived }

def step (numbers : JsonNumbers) (st : ProfileStore) : StoreLabel → Option ProfileStore
  | .edit e => st.edit e
  | .save i => st.update i fun s => some s.saveDialogs
  | .take i => st.update i fun s =>
      if s.running ∧ s.writing = none ∧ s.pending ≠ none then
        some { s with pending := none, writing := s.pending }
      else none
  | .write i => st.write i
  | .rest i => st.update i fun s =>
      if s.running ∧ ¬ s.Busy then some { s with running := false } else none
  | .startLogin => some { st with logins := st.logins ++ [none] }
  | .readDialogs i =>
      if st.logins[i]? = some none then
        some { st with logins := st.logins.set i (some (Dialogs.reload numbers st.disk)) }
      else none
  | .loginFails i => some { st with logins := st.logins.eraseIdx i }
  | .finishLogin i serverId derived => st.finishLogin i serverId derived.toList
  | .removeSession => some { st with live := none }

/-- No queue but that of one session has anything to write. -/
def OthersIdle (st : ProfileStore) (i : Nat) : Prop :=
  ∀ j < st.sessions.length, j ≠ i → ∀ s ∈ st.sessions[j]?, ¬ s.Busy

instance (st : ProfileStore) (i : Nat) : Decidable (st.OthersIdle i) :=
  inferInstanceAs (Decidable (∀ j < st.sessions.length, j ≠ i → ∀ s ∈ st.sessions[j]?, ¬ s.Busy))

/-- The list as it is now: that of the session, or the last one that it has left to be written. -/
def current (st : ProfileStore) : List Dialog :=
  (st.liveDialogs <|> st.sessions.findSome? SessionObject.newest).getD st.disk

end ProfileStore

structure ImportUnderWay where
  profileId : String
  keys : List Dialogs.ImportedKey
  target : List Dialog
  isCurrentClient : Bool
deriving DecidableEq

structure StoreWorld where
  profiles : String → ProfileStore
  active : Option String
  /-- The GUI thread is busy with an import. -/
  importing : Option ImportUnderWay

inductive StoreEvent where
  | store (profileId : String) (l : StoreLabel)
  | setActiveSession (profileId : Option String)
  | importRead (profileId : String) (keys : List Dialogs.ImportedKey)
  | importWrite

/-- The workers of queues and logins run beside the GUI thread. -/
def StoreLabel.onWorker : StoreLabel → Bool
  | .take _ | .write _ | .rest _ | .readDialogs _ => true
  | _ => false

namespace StoreWorld

variable (numbers : JsonNumbers)

/-- Changes are made to the active session only; a session that is replaced or removed is not
active any more. -/
def store (w : StoreWorld) (profileId : String) (l : StoreLabel) : Option StoreWorld :=
  let allowed : Bool := match l with
    | .edit _ => w.active = some profileId
    | _ => true
  let replaced : Bool := match l with
    | .finishLogin .. | .removeSession => w.active = some profileId
    | _ => false
  if (w.importing = none ∨ l.onWorker) ∧ allowed then
    ((w.profiles profileId).step numbers l).map fun st =>
      { w with
        profiles := Function.update w.profiles profileId st
        active := if replaced then none else w.active }
  else none

def importRead (w : StoreWorld) (profileId : String) (keys : List Dialogs.ImportedKey) :
    ImportUnderWay :=
  let st := w.profiles profileId
  let isCurrentClient := w.active = some profileId
  let dialogs := if isCurrentClient then st.liveDialogs.getD [] else Dialogs.reload numbers st.disk
  ⟨profileId, keys, Dialogs.importKeys dialogs keys, isCurrentClient⟩

/-- The file is written past the queue, and the session gets the list only if it is the active
one. -/
def importWrite (st : ProfileStore) (imp : ImportUnderWay) : ProfileStore :=
  { st with
    disk := imp.target
    sessions := match st.live, imp.isCurrentClient with
      | some i, true => st.sessions.modify i fun s => { s with dialogs := imp.target }
      | _, _ => st.sessions
    intended := Dialogs.importKeys st.intended imp.keys }

def step (w : StoreWorld) : StoreEvent → Option StoreWorld
  | .store profileId l => w.store numbers profileId l
  | .setActiveSession profileId =>
      if w.importing = none ∧ ∀ p ∈ profileId, (w.profiles p).live ≠ none then
        some { w with active := profileId }
      else none
  | .importRead profileId keys =>
      if w.importing = none then
        some { w with importing := some (w.importRead numbers profileId keys) }
      else none
  | .importWrite => w.importing.map fun imp =>
      { w with
        profiles := Function.update w.profiles imp.profileId
          (importWrite (w.profiles imp.profileId) imp)
        importing := none }

end StoreWorld

end Paranoia
