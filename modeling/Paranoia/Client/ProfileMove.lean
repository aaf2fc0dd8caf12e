import Mathlib.Logic.Function.Basic
import Paranoia.Client.Startup

/-!
# Moving a profile to another server

`changeProfileServer` renames the directory of the profile, then rewrites the manifest, carries the
local name and the avatar over, rewrites the configuration, and logs in again. Each of these is a
write of its own that can fail, and the process can die before each of them. A manifest that could
not be written is still the one in memory, from which the next one is made. At the next start the
id of a profile is made anew from the address in its configuration.
-/

namespace Paranoia

/-- The name the user has given to the profile. -/
def Manifest.localName (m : Manifest) (id : String) : String := (m.field id "localName").getD ""

/-- The name of a profile that a start comes to: one with an entry, and the last one. -/
def Manifest.loadedName (m : Manifest) (id : String) : Option String :=
  if m.entry id ≠ none ∨ m.lastProfileId = id then some (m.localName id) else none

/-- What is in the directory of a profile. -/
structure ProfileFiles (δ : Type) where
  client : Option ClientConfig
  /-- Dialogues, keys, history and attachments. -/
  data : Option δ
deriving DecidableEq

structure ProfileDisk (δ : Type) where
  dirs : String → Option (ProfileFiles δ)
  manifest : Manifest
  /-- `g_manifestCache`, which goes with the process. -/
  cache : Manifest

/-- What a move of a profile is about. -/
structure ProfileMove where
  old : String
  new : String
  newServer : String
  /-- The configuration of the session. -/
  config : ClientConfig
  wasActive : Bool
  now : String
  /-- What others make of the manifest after it, before the client is closed. -/
  later : List (Manifest → Manifest)

namespace ProfileMove

def newConfig (q : ProfileMove) : ClientConfig := { q.config with server := q.newServer }

end ProfileMove

namespace ProfileDisk

variable {δ : Type}

def client (d : ProfileDisk δ) (id : String) : Option ClientConfig :=
  (d.dirs id).bind ProfileFiles.client

def data (d : ProfileDisk δ) (id : String) : Option δ := (d.dirs id).bind ProfileFiles.data

/-! ## Steps

Each is told whether what it writes gets to the disk. -/

def renameDir (d : ProfileDisk δ) (old new : String) : ProfileDisk δ :=
  { d with dirs := Function.update (Function.update d.dirs new (d.dirs old)) old none }

/-- A write that fails is not noticed: what is in memory is taken for what is on disk. -/
def writeProfilesManifest (m : Manifest) (ok : Bool) (d : ProfileDisk δ) : ProfileDisk δ :=
  { d with manifest := if ok then m else d.manifest, cache := m }

def updateManifest (u : ManifestUpdate) (ok : Bool) (d : ProfileDisk δ) : ProfileDisk δ :=
  match u.apply d.cache with
  | none => d
  | some m => d.writeProfilesManifest m ok

def changeManifest (f : Manifest → Manifest) (ok : Bool) (d : ProfileDisk δ) : ProfileDisk δ :=
  d.writeProfilesManifest (f d.cache) ok

/-- The directory is made if there is none. -/
def saveClientConfigForProfile (id : String) (config : ClientConfig) (ok : Bool)
    (d : ProfileDisk δ) : ProfileDisk δ :=
  let files : ProfileFiles δ := { (d.dirs id).getD ⟨none, none⟩ with client := some config }
  if ok then { d with dirs := Function.update d.dirs id (some files) } else d

/-- Steps one after the other. Once the process is dead nothing gets to the disk. -/
def steps (d : ProfileDisk δ) :
    List (Bool → ProfileDisk δ → ProfileDisk δ) → List Bool → ProfileDisk δ
  | [], _ => d
  | f :: fs, oks => steps (f (oks.headD false) d) fs oks.tail

/-- What is carried over to the new entry. -/
def carry (d : ProfileDisk δ) (q : ProfileMove) : List (String × String) :=
  let avatar := (d.cache.field q.old "avatar").getD ""
  (if d.cache.localName q.old = "" then [] else [("localName", d.cache.localName q.old)])
    ++ if avatar = "" then [] else [("avatar", avatar)]

/-- What a login makes of the manifest, and what others make of it then. -/
def loginChanges (q : ProfileMove) (profileId : String) (config : ClientConfig) :
    List (Manifest → Manifest) :=
  (fun m => m.upsertProfileManifest profileId config.server config.username q.now true) :: q.later

/-- What `saveClientConfig` of a new session writes, and what others write after it. -/
def login (q : ProfileMove) (profileId : String) (config : ClientConfig) :
    List (Bool → ProfileDisk δ → ProfileDisk δ) :=
  saveClientConfigForProfile profileId config :: (loginChanges q profileId config).map changeManifest

/-- After the directory was renamed: the old entry, the new one, what is carried over, the
configuration, and the login. -/
def movedSteps (q : ProfileMove) (carry : List (String × String)) :
    List (Bool → ProfileDisk δ → ProfileDisk δ) :=
  [updateManifest (.move q.old),
    updateManifest (.upsert q.new q.newServer q.config.username q.now q.wasActive),
    if carry = [] then fun _ d => d else updateManifest (.update q.new carry q.now),
    saveClientConfigForProfile q.new q.newConfig] ++ login q q.new q.newConfig

/-- What the worker, the login after it and the rest of the session leave. -/
def changeProfileServer (d : ProfileDisk δ) (q : ProfileMove) (oks : List Bool) : ProfileDisk δ :=
  if oks.headD false then (d.renameDir q.old q.new).steps (movedSteps q (d.carry q)) oks.tail
  else d.steps (login q q.old q.config) oks.tail

/-! ## The next start -/

variable (ids : ProfileIds)

def tryLoad (d : ProfileDisk δ) (acc : Startup.Loaded) (profileId : String) (makeActive : Bool) :
    Startup.Loaded :=
  if profileId = "" ∨ profileId ∈ acc.loaded then acc
  else match d.client profileId with
    | none => acc
    | some config =>
        if config.server = "" ∨ config.privateKey = "" then acc
        else ⟨profileId :: acc.loaded,
          acc.logins ++ (Startup.loginClientInternal ids config makeActive).toList⟩

def loadClientConfig (d : ProfileDisk δ) : List StartupLogin :=
  let last := d.manifest.lastProfileId
  let acc := d.manifest.profiles.foldl (fun acc e => d.tryLoad ids acc e.id (e.id = last)) ⟨[], []⟩
  (if last ∈ acc.loaded then acc else d.tryLoad ids acc last true).logins

/-- A profile that can be moved. -/
structure Movable (d : ProfileDisk δ) (q : ProfileMove) (files : δ) : Prop where
  stored : d.dirs q.old = some ⟨some q.config, some files⟩
  entry : d.cache.entry q.old ≠ none
  free : d.dirs q.new = none ∧ d.cache.entry q.new = none ∧ d.cache.lastProfileId ≠ q.new
  moved : q.old ≠ q.new
  idOf : ids.idOf q.config = q.old ∧ ids.idOf q.newConfig = q.new
  known : q.config.server ≠ "" ∧ q.newServer ≠ "" ∧ q.config.privateKey ≠ ""
    ∧ ids.deriveServerId q.config.privateKey ≠ "" ∧ q.old ≠ "" ∧ q.new ≠ ""
  /-- The other profiles have the ids of their servers and keys. -/
  own : ∀ id config, id ≠ q.old → d.client id = some config → ids.idOf config = id
  /-- What is written after the login is about them. -/
  apart : ∀ f ∈ q.later, ∀ m, (f m).entry q.old = m.entry q.old ∧ (f m).entry q.new = m.entry q.new

/-- The profile is loaded once, under one of the two addresses, with what it had. -/
def LoadedWhole (d' : ProfileDisk δ) (q : ProfileMove) (files : δ) (name : String) : Prop :=
  ∃ login, (d'.loadClientConfig ids).filter (fun l => l.profileId = q.old ∨ l.profileId = q.new)
      = [login]
    ∧ d'.data login.profileId = some files ∧ d'.manifest.localName login.profileId = name

/-- Of the manifests that get to the disk the last one has the local name: any from the login on, the
one with what is carried over, the first one with the new entry if there is no name; and if none
does, the one that is there. And if the directory is renamed, the configuration is written. -/
def Survives (d : ProfileDisk δ) (q : ProfileMove) : List Bool → Prop
  | true :: oks =>
      (true ∈ (oks.drop 5).take (q.later.length + 1) ∨ (oks.getD 2 false ∧ d.carry q ≠ [])
        ∨ (oks.getD 1 false ∧ d.cache.localName q.old = "")
        ∨ (¬ oks.getD 0 false ∧ ¬ oks.getD 1 false
          ∧ d.manifest.loadedName q.new = some (d.cache.localName q.old)))
        ∧ (oks.getD 3 false ∨ oks.getD 4 false)
  | oks =>
      true ∈ (oks.drop 2).take (q.later.length + 1)
        ∨ d.manifest.loadedName q.old = some (d.cache.localName q.old)

end ProfileDisk

end Paranoia
