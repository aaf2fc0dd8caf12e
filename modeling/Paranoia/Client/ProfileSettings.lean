import Mathlib.Algebra.Order.Ring.Int
import Mathlib.Data.List.Basic

/-!
# Edits of the settings of a profile

All that changes `client.json` rewrites it with one function, which is given the settings and keeps
only the metadata of the connection. The settings are also in the session, and in a login that is
under way; a login takes over what it began with when it ends. Two callers leave the TURN servers
out.
-/

namespace Paranoia

/-- How addresses are brought into form, and when two TURN servers are the same. -/
structure AddressRules where
  normalizedServerUrl : String → String
  normalizeTurnUrl : String → String
  trimmed : String → String
  lower : String → String
  deriveServerId : String → String

namespace AddressRules

variable (rules : AddressRules)

def normalizedServerUrls (servers : List String) (primaryServer : String) : List String :=
  servers.foldl (fun result server =>
    let url := rules.normalizedServerUrl server
    if url = "" ∨ url = rules.normalizedServerUrl primaryServer ∨ url ∈ result then result
    else result ++ [url]) []

/-- `QStringList::contains` and `compare`, case-insensitive. -/
def Same (a b : String) : Prop := rules.lower a = rules.lower b

instance (a b : String) : Decidable (rules.Same a b) := inferInstanceAs (Decidable (_ = _))

def turnUrls (raw : List String) : List String :=
  raw.foldl (fun out item =>
    let item := rules.trimmed item
    if item = "" ∨ out.any (rules.Same item) then out else out ++ [item]) []

end AddressRules

/-- What `client.json` says. -/
structure ClientSettings where
  server : String
  username : String
  serverId : String
  privateKey : String
  reserveServerUrls : List String
  turnServerUrls : List String
  /-- The tariff and the parameters of the masking. -/
  metadata : List (String × String)
deriving DecidableEq

structure SessionSettings where
  server : String
  username : String
  serverId : String
  privateKey : String
  reserveServerUrls : List String
  turnServerUrls : List String
deriving DecidableEq

/-- A login that is under way, with what it began with. -/
structure SettingsLogin where
  settings : SessionSettings
  connectionMeta : List (String × String)
deriving DecidableEq

structure ProfileSettings where
  client : ClientSettings
  session : Option SessionSettings
  logins : List SettingsLogin
deriving DecidableEq

inductive SettingsOp where
  | addReserve (domain : String)
  | removeReserve (domain : String)
  | addTurn (url : String)
  | removeTurn (url : String)
  /-- A login with what is stored. -/
  | activateProfile
  /-- A login to the server and with the key of the profile; the rest is as it was typed. -/
  | loginClient (username : String) (reserves : List String) (connectionMeta : List (String × String))
  /-- A login that is under way ends; whether the handle could be made. -/
  | loginDone (i : Nat) (handleOk : Bool)
  /-- A bundle of the profile, and whether it is logged in. -/
  | importBundle (username : String) (reserves : List String) (metadata : List (String × String))
      (activate : Bool)
  | corporateName (fullName : String)
deriving DecidableEq

/-- What is written over the metadata. -/
def putMeta (metadata fields : List (String × String)) : List (String × String) :=
  fields.foldl (fun m f => (f.1, f.2) :: m.filter (·.1 ≠ f.1)) metadata

namespace ProfileSettings

variable (rules : AddressRules)

def saveClientConfigForProfile (w : ProfileSettings)
    (server username serverId privateKey : String) (reserves turn : List String) : ProfileSettings :=
  if server = "" ∨ privateKey = "" then w
  else
    let server := rules.normalizedServerUrl server
    { w with client := ⟨server, username, serverId, privateKey,
        rules.normalizedServerUrls reserves server, turn.filter (· ≠ ""), w.client.metadata⟩ }

/-- A login begins with the TURN servers that are stored. -/
def loginClientInternal (w : ProfileSettings) (server username privateKey : String)
    (reserves : List String) (connectionMeta : List (String × String)) : ProfileSettings :=
  let url := rules.normalizedServerUrl server
  let serverId := rules.deriveServerId privateKey
  if serverId = "" then w
  else { w with logins := w.logins ++ [⟨⟨url, rules.trimmed username, serverId, privateKey,
    rules.normalizedServerUrls reserves url, rules.turnUrls w.client.turnServerUrls⟩,
    connectionMeta⟩] }

def activateProfile (w : ProfileSettings) : ProfileSettings :=
  let c := w.client
  if c.server = "" ∨ c.privateKey = "" then w
  else w.loginClientInternal rules c.server c.username c.privateKey
    (rules.normalizedServerUrls c.reserveServerUrls c.server) []

def loginDone (w : ProfileSettings) (login : SettingsLogin) (handleOk : Bool) : ProfileSettings :=
  if handleOk then
    let s := login.settings
    let w := ({ w with session := some s } : ProfileSettings).saveClientConfigForProfile rules
      s.server s.username s.serverId s.privateKey s.reserveServerUrls s.turnServerUrls
    { w with client := { w.client with metadata := putMeta w.client.metadata login.connectionMeta } }
  else w

def orElse (a : String) (b : Option String) : String := if a = "" then b.getD "" else a

/-- Adding and removing differ in when they are refused and in what becomes of the list. -/
def editReserve (w : ProfileSettings) (domain : String)
    (refused : String → String → List String → Bool)
    (edit : List String → String → String → List String) : ProfileSettings :=
  let c := w.client
  let primaryUrl := rules.normalizedServerUrl (orElse c.server (w.session.map (·.server)))
  let username := orElse c.username (w.session.map (·.username))
  let privateKey := orElse c.privateKey (w.session.map (·.privateKey))
  let serverId := orElse c.serverId (w.session.map (·.serverId))
  let reserves := rules.normalizedServerUrls (rules.normalizedServerUrls c.reserveServerUrls c.server
    ++ (w.session.map (·.reserveServerUrls)).getD []) primaryUrl
  if primaryUrl = "" ∨ privateKey = "" then w
  else
    let reserveUrl := rules.normalizedServerUrl domain
    let serverId := if serverId = "" then rules.deriveServerId privateKey else serverId
    if refused reserveUrl primaryUrl reserves ∨ serverId = "" then w
    else
      let updated := edit reserves primaryUrl reserveUrl
      -- the TURN servers are left out
      let w := w.saveClientConfigForProfile rules primaryUrl username serverId privateKey updated []
      if w.session.isSome then w.loginClientInternal rules primaryUrl username privateKey updated []
      else w

def appendReserveUrl (urls : List String) (primaryUrl reserveUrl : String) : List String :=
  rules.normalizedServerUrls (urls ++ [reserveUrl]) primaryUrl

def removeReserveUrl (urls : List String) (primaryUrl reserveUrl : String) : List String :=
  rules.normalizedServerUrls ((rules.normalizedServerUrls urls primaryUrl).filter
    (· ≠ rules.normalizedServerUrl reserveUrl)) primaryUrl

def addRefused (reserveUrl primaryUrl : String) (reserves : List String) : Bool :=
  reserveUrl = "" ∨ reserveUrl = primaryUrl ∨ reserveUrl ∈ reserves

def removeRefused (reserveUrl : String) (_ : String) (reserves : List String) : Bool :=
  reserveUrl = "" ∨ reserveUrl ∉ reserves

def addClientReserveDomain (w : ProfileSettings) (domain : String) : ProfileSettings :=
  w.editReserve rules domain addRefused (appendReserveUrl rules)

def removeClientReserveDomain (w : ProfileSettings) (domain : String) : ProfileSettings :=
  w.editReserve rules domain removeRefused (removeReserveUrl rules)

/-- The TURN servers are written with everything else as it is stored. -/
def saveTurn (w : ProfileSettings) (list : List String) : ProfileSettings :=
  let c := w.client
  let w := w.saveClientConfigForProfile rules c.server c.username c.serverId c.privateKey
    (rules.normalizedServerUrls c.reserveServerUrls c.server) list
  { w with session := w.session.map fun s => { s with turnServerUrls := list } }

def addTurnServer (w : ProfileSettings) (turnUrl : String) : ProfileSettings :=
  let normalized := rules.normalizeTurnUrl turnUrl
  let list := rules.turnUrls w.client.turnServerUrls
  if normalized = "" ∨ w.client.server = "" ∨ list.any (rules.Same normalized) then w
  else w.saveTurn rules (list ++ [normalized])

def removeTurnServer (w : ProfileSettings) (turnUrl : String) : ProfileSettings :=
  let normalized := rules.normalizeTurnUrl turnUrl
  let list := rules.turnUrls w.client.turnServerUrls
  let left := list.filter fun s => ¬ rules.Same normalized s
  if normalized = "" ∨ w.client.server = "" ∨ left.length = list.length then w
  else w.saveTurn rules left

/-- A bundle with the server and the key of the profile; the TURN servers are left out. -/
def applyImportedPayload (w : ProfileSettings) (username : String) (reserves : List String)
    (metadata : List (String × String)) (activate : Bool) : ProfileSettings :=
  let c := w.client
  let username := rules.trimmed username
  let reserves := rules.normalizedServerUrls (rules.normalizedServerUrls reserves c.server
    ++ rules.normalizedServerUrls c.reserveServerUrls c.server) c.server
  let w := w.saveClientConfigForProfile rules c.server username (rules.deriveServerId c.privateKey)
    c.privateKey reserves []
  let w := { w with client := { w.client with metadata := putMeta w.client.metadata metadata } }
  if activate then w.loginClientInternal rules c.server username c.privateKey reserves [] else w

def applyCorporateSelfName (w : ProfileSettings) (fullName : String) : ProfileSettings :=
  match w.session with
  | none => w
  | some s =>
      let name := rules.trimmed fullName
      if name = "" ∨ s.username = name then w
      else ({ w with session := some { s with username := name } } : ProfileSettings)
        |>.saveClientConfigForProfile rules s.server name s.serverId s.privateKey
          s.reserveServerUrls s.turnServerUrls

def apply (w : ProfileSettings) : SettingsOp → ProfileSettings
  | .addReserve domain => w.addClientReserveDomain rules domain
  | .removeReserve domain => w.removeClientReserveDomain rules domain
  | .addTurn url => w.addTurnServer rules url
  | .removeTurn url => w.removeTurnServer rules url
  | .activateProfile => w.activateProfile rules
  | .loginClient username reserves connectionMeta =>
      w.loginClientInternal rules w.client.server username w.client.privateKey reserves connectionMeta
  | .loginDone i handleOk =>
      match w.logins[i]? with
      | none => w
      | some login =>
          ({ w with logins := w.logins.eraseIdx i } : ProfileSettings).loginDone rules login handleOk
  | .importBundle username reserves metadata activate =>
      w.applyImportedPayload rules username reserves metadata activate
  | .corporateName fullName => w.applyCorporateSelfName rules fullName

def run (w : ProfileSettings) (ops : List SettingsOp) : ProfileSettings := ops.foldl (apply rules) w

/-! ## What an operation is to change -/

/-- What is to become of the TURN servers. -/
def turnEdit (list : List String) : SettingsOp → List String
  | .addTurn url =>
      let url := rules.normalizeTurnUrl url
      if url = "" ∨ list.any (rules.Same url) then list else list ++ [url]
  | .removeTurn url =>
      let url := rules.normalizeTurnUrl url
      if url = "" then list else list.filter fun s => ¬ rules.Same url s
  | _ => list

/-- What is to become of the reserve servers of the profile at `server`, in the form in which they
are written. -/
def reserveEdit (server : String) (list : List String) : SettingsOp → List String
  | .addReserve domain =>
      let url := rules.normalizedServerUrl domain
      if addRefused url server list then list
      else rules.normalizedServerUrls (appendReserveUrl rules list server url) server
  | .removeReserve domain =>
      let url := rules.normalizedServerUrl domain
      if removeRefused url server list then list
      else rules.normalizedServerUrls (removeReserveUrl rules list server url) server
  | .importBundle _ reserves _ _ =>
      rules.normalizedServerUrls (rules.normalizedServerUrls
        (rules.normalizedServerUrls reserves server ++ list) server) server
  | _ => list

/-- The metadata that an operation brings. -/
def brings (w : ProfileSettings) : SettingsOp → List (String × String)
  | .loginDone i true => (w.logins[i]?.map (·.connectionMeta)).getD []
  | .importBundle _ _ metadata _ => metadata
  | _ => []

/-- Whether it is to change the name. -/
def Renames : SettingsOp → Prop
  | .importBundle .. => True
  | .corporateName _ => True
  | _ => False

/-- An operation has touched its own setting only. -/
structure Framed (w : ProfileSettings) (op : SettingsOp) : Prop where
  turn : (w.apply rules op).client.turnServerUrls = turnEdit rules w.client.turnServerUrls op
  reserves : (w.apply rules op).client.reserveServerUrls
    = reserveEdit rules w.client.server w.client.reserveServerUrls op
  metadata : (w.apply rules op).client.metadata = putMeta w.client.metadata (w.brings op)
  username : ¬ Renames op → (w.apply rules op).client.username = w.client.username
  server : (w.apply rules op).client.server = w.client.server
  serverId : (w.apply rules op).client.serverId = w.client.serverId
  privateKey : (w.apply rules op).client.privateKey = w.client.privateKey

/-- The stored settings are in the form in which they are written. -/
structure Settled (c : ClientSettings) : Prop where
  server : c.server ≠ "" ∧ rules.normalizedServerUrl c.server = c.server
  privateKey : c.privateKey ≠ ""
  serverId : c.serverId ≠ "" ∧ rules.deriveServerId c.privateKey = c.serverId
  reserves : rules.normalizedServerUrls c.reserveServerUrls c.server = c.reserveServerUrls
  turn : rules.turnUrls c.turnServerUrls = c.turnServerUrls ∧ "" ∉ c.turnServerUrls

/-- A session, or a login that ends, has the settings that are stored, but for the name. -/
def Agrees (s : SessionSettings) (c : ClientSettings) : Prop :=
  s.server = c.server ∧ s.serverId = c.serverId ∧ s.privateKey = c.privateKey
    ∧ s.reserveServerUrls = c.reserveServerUrls ∧ s.turnServerUrls = c.turnServerUrls

/-- The session has no reserve server that is not stored, and no name where none is. -/
def SessionReserves (w : ProfileSettings) : Prop :=
  ∀ s, w.session = some s → rules.normalizedServerUrls
      (w.client.reserveServerUrls ++ s.reserveServerUrls) w.client.server = w.client.reserveServerUrls
    ∧ (w.client.username = "" → s.username = "")

/-- What leaves the TURN servers out comes while there are none, a login ends with what is stored,
and so does a session that writes its name. -/
def StepOk (w : ProfileSettings) (op : SettingsOp) : Prop :=
  Settled rules w.client ∧ match op with
    | .addReserve domain => w.SessionReserves rules ∧ (w.client.turnServerUrls = []
        ∨ addRefused (rules.normalizedServerUrl domain) w.client.server w.client.reserveServerUrls)
    | .removeReserve domain => w.SessionReserves rules ∧ (w.client.turnServerUrls = []
        ∨ removeRefused (rules.normalizedServerUrl domain) w.client.server w.client.reserveServerUrls)
    | .loginDone i handleOk => handleOk = true → ∀ login, w.logins[i]? = some login →
        Agrees login.settings w.client ∧ login.settings.username = w.client.username
    | .importBundle .. => w.client.turnServerUrls = []
    | .corporateName fullName => ∀ s, w.session = some s → rules.trimmed fullName = ""
        ∨ s.username = rules.trimmed fullName ∨ Agrees s w.client
    | _ => True

end ProfileSettings

end Paranoia
