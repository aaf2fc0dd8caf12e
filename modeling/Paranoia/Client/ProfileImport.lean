import Paranoia.Client.DialogStore

/-!
# Importing profiles

The decrypted payload of an export lists servers, with the dialogues of each and the keys of those,
and servers that are administrated. A profile with another key is left alone, and so is an entry of
a keyring with another key. A profile is saved when its dialogues have been merged, the list of
administrated servers at the end. Only the active profile keeps its dialogues in memory; those of the
others go through `dialogs.json`, which has first positions as doubles. The addresses of reserve
servers, names, the metadata of the connection and the login behind an import are left out, and
writing is taken not to fail.
-/

namespace Paranoia

/-- An entry of the keyring without a number has 0. -/
structure ImportedDialogue where
  peer : String
  peerServerId : String
  keyring : List (UInt64 × List UInt8)
deriving DecidableEq

/-- The address is in form, or empty. -/
structure ImportedServer where
  url : String
  signingKey : String
  dialogues : List ImportedDialogue
deriving DecidableEq

structure AdminServer where
  url : String
  privateKey : String
deriving DecidableEq

/-- `none` where the type of the profile has no such part. -/
structure ProfilePayload where
  servers : Option (List ImportedServer)
  adminServers : Option (List AdminServer)
deriving DecidableEq

/-- What is made of a private key. -/
structure SigningKeys where
  /-- Whether it is the base64 of 32 bytes. -/
  decodes : String → Bool
  deriveServerId : String → String
  profileIdFor : String → String → String
  decodes_empty : decodes "" = false

structure ImportStore where
  /-- The profile of the active session. -/
  active : Option String
  /-- Empty where there is none. -/
  privateKey : String → String
  /-- Of the active profile those of its session, of the others as they are read from the file. -/
  dialogs : String → List Dialog
  admins : List AdminServer
  savedAdmins : List AdminServer

inductive ImportError where
  | payload | servers | signingKey | serverId | dialogues | keyEntries | adminServers | adminKey
deriving DecidableEq

structure ImportState where
  store : ImportStore
  totalDialogues : Nat
  totalKeyEntries : Nat
  conflicts : Nat
  importedAdminServers : Nat

namespace ProfileImport

open Dialogs

def maxImportServers : Nat := 16
def maxImportDialogues : Nat := 1024
def maxImportKeyEntries : Nat := 8192
def maxImportAdminServers : Nat := 16

/-! ## Dialogues -/

/-- `mergeKeyringEntry` is -1: the dialogue has another key there. -/
def refused (dialogs : List Dialog) (e : ImportedKey) : Bool :=
  if e.peer = "" ∨ e.startSeq = 0 ∨ e.key.length ≠ 32 then false
  else match (findTarget dialogs e.peer e.peerServerId).bind (dialogs[·]?) with
    | none => false
    | some d => match d.keyring.find? (·.startSeq = e.startSeq) with
      | none => false
      | some k => k.key ≠ e.key

/-- One entry; how many have been refused. -/
def mergeKey (acc : List Dialog × Nat) (e : ImportedKey) : List Dialog × Nat :=
  (importKey acc.1 e, if refused acc.1 e then acc.2 + 1 else acc.2)

def keysOf (d : ImportedDialogue) : List ImportedKey :=
  d.keyring.map fun e => ⟨d.peer, d.peerServerId, e.2, e.1⟩

/-- The dialogues of one server and the number of entries; `none` if there are too many. -/
def mergeDialogues : List Dialog × Nat → Nat → List ImportedDialogue →
    Option ((List Dialog × Nat) × Nat)
  | acc, total, [] => some (acc, total)
  | acc, total, d :: rest =>
      if d.peer = "" ∨ d.keyring = [] then mergeDialogues acc total rest
      else if maxImportKeyEntries < total + d.keyring.length then none
      else mergeDialogues ((keysOf d).foldl mergeKey acc) (total + d.keyring.length) rest

/-- What there is of the dialogues of a profile when they have been saved. -/
def savedDialogs (numbers : JsonNumbers) (store : ImportStore) (profileId : String)
    (dialogs : List Dialog) : List Dialog :=
  if store.active = some profileId then dialogs else reload numbers dialogs

/-! ## Servers -/

variable (numbers : JsonNumbers) (keys : SigningKeys)

def profileOf (s : ImportedServer) : String :=
  keys.profileIdFor s.url (keys.deriveServerId s.signingKey)

def importServer (st : ImportState) (s : ImportedServer) : Except ImportError ImportState :=
  if s.url = "" then .ok st
  else if keys.decodes s.signingKey = false then .error .signingKey
  else if keys.deriveServerId s.signingKey = "" then .error .serverId
  else
    let profileId := profileOf keys s
    let existingKey := st.store.privateKey profileId
    if existingKey ≠ "" ∧ existingKey ≠ s.signingKey then
      .ok { st with conflicts := st.conflicts + 1 }
    else if maxImportDialogues < st.totalDialogues + s.dialogues.length then .error .dialogues
    else match mergeDialogues (st.store.dialogs profileId, st.conflicts) st.totalKeyEntries
        s.dialogues with
      | none => .error .keyEntries
      | some ((dialogs, conflicts), totalKeyEntries) =>
          .ok { st with
            store := { st.store with
              privateKey := Function.update st.store.privateKey profileId s.signingKey
              dialogs := Function.update st.store.dialogs profileId
                (savedDialogs numbers st.store profileId dialogs) }
            totalDialogues := st.totalDialogues + s.dialogues.length
            totalKeyEntries := totalKeyEntries
            conflicts := conflicts }

/-- A server that is there already stays as it is. -/
def importAdminServer (st : ImportState) (a : AdminServer) : Except ImportError ImportState :=
  if a.url = "" ∨ a.privateKey = "" then .ok st
  else if keys.decodes a.privateKey = false then .error .adminKey
  else if st.store.admins.any (·.url = a.url) then .ok st
  else .ok { st with
    store := { st.store with admins := st.store.admins ++ [a] }
    importedAdminServers := st.importedAdminServers + 1 }

/-- A loop that an error ends. -/
def importAll {α : Type} (f : ImportState → α → Except ImportError ImportState) :
    ImportState → List α → ImportState × Option ImportError
  | st, [] => (st, none)
  | st, a :: rest => match f st a with
    | .error e => (st, some e)
    | .ok st => importAll f st rest

def importServers (st : ImportState) (servers : List ImportedServer) :
    ImportState × Option ImportError :=
  if maxImportServers < servers.length then (st, some .servers)
  else importAll (importServer numbers keys) st servers

def importAdminServers (st : ImportState) (admins : List AdminServer) :
    ImportState × Option ImportError :=
  if maxImportAdminServers < admins.length then (st, some .adminServers)
  else importAll (importAdminServer keys) st admins

def begun (store : ImportStore) : ImportState := ⟨store, 0, 0, 0, 0⟩

def saved (st : ImportState) : ImportStore :=
  if 0 < st.importedAdminServers then { st.store with savedAdmins := st.store.admins } else st.store

/-- `none` for a payload that is no object of the version and with a type that the client knows. The
result is the number of conflicts. -/
def applyImportedPayload (store : ImportStore) (payload : Option ProfilePayload) :
    ImportStore × Except ImportError Nat :=
  match payload with
  | none => (store, .error .payload)
  | some p =>
      match importServers numbers keys (begun store) (p.servers.getD []) with
      | (st, some e) => (st.store, .error e)
      | (st, none) =>
          match importAdminServers keys st (p.adminServers.getD []) with
          | (st, some e) => (st.store, .error e)
          | (st, none) => (saved st, .ok st.conflicts)

/-! ## What an import has to keep -/

/-- The dialogue stays, with its keys. -/
structure DialogStays (d d' : Dialog) : Prop where
  peer : d'.peer = d.peer
  peerServerId : d.peerServerId ≠ "" → d'.peerServerId = d.peerServerId
  localName : d'.localName = d.localName
  keys : ∀ k ∈ d.keyring, k ∈ d'.keyring

/-- And it gets no other key where it has one. -/
structure KeptDialog (d d' : Dialog) : Prop extends DialogStays d d' where
  added : ∀ k' ∈ d'.keyring, k' ∈ d.keyring ∨ ∀ k ∈ d.keyring, k.startSeq ≠ k'.startSeq

/-- Each dialogue of the first list is in the second one, in its place. -/
def Throughout (R : Dialog → Dialog → Prop) (dialogs dialogs' : List Dialog) : Prop :=
  ∀ (i : Nat) (d : Dialog), dialogs[i]? = some d → ∃ d', dialogs'[i]? = some d' ∧ R d d'

def KeptDialogs (dialogs dialogs' : List Dialog) : Prop := Throughout KeptDialog dialogs dialogs'

structure Kept (store store' : ImportStore) : Prop where
  privateKey : ∀ profileId, store.privateKey profileId ≠ "" →
    store'.privateKey profileId = store.privateKey profileId
  dialogs : ∀ profileId, Throughout DialogStays (store.dialogs profileId) (store'.dialogs profileId)
  admins : store.admins <+: store'.admins

/-- A dialogue comes back from its file as it is. -/
structure ReadBack (d : Dialog) : Prop where
  peer : d.peer ≠ ""
  sorted : d.keyring.Pairwise fun a b => a.startSeq ≤ b.startSeq
  keys : ∀ k ∈ d.keyring, rereadKey numbers k = some k

/-- What the profiles other than the active one have has come from their files. -/
def FromFiles (store : ImportStore) : Prop :=
  ∀ profileId, store.active ≠ some profileId →
    ∀ d ∈ store.dialogs profileId, ReadBack numbers d

/-- An entry that is not skipped. -/
def Good (e : ImportedKey) : Prop := ¬ (e.peer = "" ∨ e.startSeq = 0 ∨ e.key.length ≠ 32)

instance (e : ImportedKey) : Decidable (Good e) := inferInstanceAs (Decidable (¬ _))

/-- A dialogue has the key, that with the server id if one is given. -/
def Stored (dialogs : List Dialog) (e : ImportedKey) : Prop :=
  ∃ d ∈ dialogs, (e.peerServerId ≠ "" → d.peerServerId = e.peerServerId)
    ∧ ∃ k ∈ d.keyring, k.startSeq = e.startSeq ∧ k.key = e.key

instance (dialogs : List Dialog) (e : ImportedKey) : Decidable (Stored dialogs e) :=
  inferInstanceAs (Decidable (∃ d ∈ dialogs, (_ → _) ∧ ∃ k ∈ d.keyring, _ ∧ _))

def serverKeys (s : ImportedServer) : List ImportedKey := s.dialogues.flatMap keysOf

/-- The first positions come back from a file as they are: below 2^53 all of them do. -/
def ExactKeys (servers : List ImportedServer) : Prop :=
  ∀ s ∈ servers, ∀ e ∈ serverKeys s, numbers.reread e.startSeq = some e.startSeq

/-- How many keys of the server have not come into the store: its own, or those of dialogues. -/
def missing (store : ImportStore) (s : ImportedServer) : Nat :=
  if s.url = "" then 0
  else if store.privateKey (profileOf keys s) ≠ s.signingKey then 1
  else (serverKeys s).countP fun e => Good e ∧ ¬ Stored (store.dialogs (profileOf keys s)) e

/-- No dialogue with a server id has the label of an entry without, or is given it. -/
def Unclaimed (store : ImportStore) (servers : List ImportedServer) : Prop :=
  ∀ s ∈ servers, ∀ e ∈ serverKeys s, Good e → e.peerServerId = "" →
    (∀ d ∈ store.dialogs (profileOf keys s), d.peer = e.peer → d.peerServerId = "")
    ∧ ∀ s' ∈ servers, profileOf keys s' = profileOf keys s → ∀ e' ∈ serverKeys s', Good e' →
      e'.peerServerId ≠ "" → e'.peer ≠ e.peer ∧ ∀ suffix, labelled e'.peer suffix ≠ e.peer

end ProfileImport

end Paranoia
