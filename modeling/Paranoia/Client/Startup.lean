import Paranoia.Client.Manifest

/-!
# Logging in at the start

Every stored profile is logged in on a worker of its own; what the workers make is taken over on the
GUI thread, in the order in which they finish. Each login that succeeds adds a session and writes
the profile to the manifest, as the one that was last active. What an activation then asks the
server for is left out.
-/

namespace Paranoia

/-- How a profile gets its id: from its server and from the server id of its key. -/
structure ProfileIds where
  deriveServerId : String → String
  profileIdFor : String → String → String

structure ClientConfig where
  server : String
  username : String
  privateKey : String
deriving DecidableEq

def ProfileIds.idOf (ids : ProfileIds) (config : ClientConfig) : String :=
  ids.profileIdFor config.server (ids.deriveServerId config.privateKey)

/-- The configurations of the clients on disk, each under the id of its server and key. -/
structure StoredClients (ids : ProfileIds) where
  client : String → Option ClientConfig
  own : ∀ id config, client id = some config → ids.idOf config = id

/-- A login that is under way. -/
structure StartupLogin where
  profileId : String
  server : String
  username : String
  makeActive : Bool
deriving DecidableEq

namespace Startup

variable {ids : ProfileIds}

/-- A login is started unless the configuration or the key is no good. -/
def loginClientInternal (ids : ProfileIds) (config : ClientConfig) (makeActive : Bool) :
    Option StartupLogin :=
  if ids.deriveServerId config.privateKey = "" then none
  else some ⟨ids.idOf config, config.server, config.username, makeActive⟩

/-- The profiles that were loaded so far, and the logins that were started. -/
structure Loaded where
  loaded : List String
  logins : List StartupLogin

def tryLoad (stored : StoredClients ids) (acc : Loaded) (profileId : String) (makeActive : Bool) :
    Loaded :=
  if profileId = "" ∨ profileId ∈ acc.loaded then acc
  else match stored.client profileId with
    | none => acc
    | some config =>
        if config.server = "" ∨ config.privateKey = "" then acc
        else ⟨profileId :: acc.loaded,
          acc.logins ++ (loginClientInternal ids config makeActive).toList⟩

def loadClientConfig (stored : StoredClients ids) (manifest : Manifest) : List StartupLogin :=
  let acc := manifest.profiles.foldl
    (fun acc e => tryLoad stored acc e.id (e.id = manifest.lastProfileId)) ⟨[], []⟩
  -- the last profile, if it is not in the manifest
  (if manifest.lastProfileId ∈ acc.loaded then acc
    else tryLoad stored acc manifest.lastProfileId true).logins

end Startup

structure StartupState where
  manifest : Manifest
  sessions : List String
  active : Option String
deriving DecidableEq

namespace StartupState

/-- A session takes the place of an earlier one of its profile. -/
def addSession (s : StartupState) (profileId : String) : StartupState :=
  { s with
    sessions := s.sessions.filter (· ≠ profileId) ++ [profileId]
    active := if s.active = some profileId then none else s.active }

/-- A login has finished. `hint` is the profile that a notification asks for. -/
def finish (hint : Option String) (now : String) (s : StartupState) (login : StartupLogin) (ok : Bool) :
    StartupState :=
  if ok then
    let s := s.addSession login.profileId
    -- `saveClientConfig` makes the profile the last one
    let s := { s with
      manifest := s.manifest.upsertProfileManifest login.profileId login.server login.username now true }
    if hint = some login.profileId ∨ (login.makeActive
        ∧ ((hint = none ∨ hint = some login.profileId) ∨ s.active = none)) then
      { s with active := some login.profileId }
    else s
  else s

/-- All of them have, in this order. -/
def finishAll (hint : Option String) (now : String) (s : StartupState)
    (order : List (StartupLogin × Bool)) : StartupState :=
  order.foldl (fun s l => s.finish hint now l.1 l.2) s

end StartupState

end Paranoia
