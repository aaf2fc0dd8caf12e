import Paranoia.Client.CorpBlob
import Paranoia.Client.Dialogs
import Paranoia.Cover.Core
import Paranoia.Lib.Tasks

/-!
# A client of a company

Someone can have several profiles, and some of them are of a company. What the company deals out is
fetched by a worker, with the configuration of the profile that was active; the node answers when it
likes. What comes of it goes to the main thread, and from there into the dialogues of the profile
that is active then. How Qt reads JSON, numbers and base64 is a parameter.
-/

namespace Paranoia

/-- `QJsonDocument::fromJson(..).object()`, a number as a `quint64`, and `QByteArray::fromBase64`. -/
class QtText where
  fromJson : String → Json
  toU64 : String → UInt64
  fromBase64 : String → List UInt8

/-- What `readCorpConfig` finds of a profile of a company. -/
structure CorpConfig where
  serverId : String
  signingKey : String
  psk : String
deriving DecidableEq

inductive CorpRequest where
  | roster
  | dialogue (partner label : String)
  | keyring
deriving DecidableEq

def CorpRequest.resource : CorpRequest → Corp.Resource
  | .roster => .roster
  | .dialogue partner _ => .dialogue partner
  | .keyring => .keyring

/-- What a worker has been started with. The profile is that of the configuration; the worker does
not have it. -/
structure CorpFetch where
  profile : Nat
  config : CorpConfig
  request : CorpRequest
deriving DecidableEq

/-- `own` is what has been put into the dialogues of a profile in another way; the program does not
keep it. -/
structure CorpWorld where
  active : Option Nat
  dialogs : Nat → List Dialog
  fetches : List CorpFetch
  own : Nat → List DialogKeyEntry

inductive CorpLabel where
  | activate (profile : Option Nat)
  | edit (op : DialogsOp)
  | request (request : CorpRequest)
  | answer (fetch : CorpFetch) (answer : Corp.Answer)

namespace Corp

section Read

variable [QtText]

def readString (v : Json) (key : String) : String := ((v.get [.key key]).bind asStr).getD ""

def readArray (v : Json) (key : String) : List Json :=
  ((v.get [.key key]).bind Cover.asArray).getD []

/-- `toDouble(1)`. -/
def readStartSeq (v : Json) : UInt64 :=
  match v.get [.key "start_seq"] with
  | some (.num text) => QtText.toU64 text
  | _ => 1

def readKey (v : Json) : List UInt8 := QtText.fromBase64 (readString v "key")

def rosterOf (root : Json) : List (String × String) :=
  (readArray root "roster").map (fun o => (readString o "username", readString o "full_name"))

def keyringOf (root : Json) : List Dialogs.CorporateKey :=
  (readArray root "keyring").map (fun e => ⟨readString e "partner", readKey e, readStartSeq e⟩)

/-- The last account of the company that has no dialogue. -/
def autoAdd (root : Json) (dialogs : List Dialog) : Option (String × String) :=
  ((readArray root "roster").filter (fun o => readString o "username" ≠ ""
      ∧ ((o.get [.key "is_company"]).bind Cover.asBool).getD false = true
      ∧ ¬ dialogs.any (·.peerServerId = readString o "username"))).getLast?.map
    (fun o => (readString o "username", readString o "full_name"))

/-- The key of one dialogue. The label that there is counts more than the one asked for. -/
def putDialogueKey (dialogs : List Dialog) (partner label : String) (e : Json) : List Dialog :=
  if (readKey e).length ≠ 32 ∨ readStartSeq e = 0 then dialogs
  else
    let peer := ((dialogs.find? (·.peerServerId = partner)).map Dialog.peer).getD label
    let peer := if peer = "" then Dialogs.trimmed (readString e "full_name") else peer
    let peer := if peer = "" then partner else peer
    Dialogs.upsertDialogKeyringEntry dialogs peer partner (readKey e) (readStartSeq e) false

end Read

end Corp

namespace CorpWorld

open Corp

variable [ChaCha20Poly1305] [Hkdf] [SerdeJson] [QtText]
variable (configs : Nat → Option CorpConfig)

/-- What a user does to the dialogues. What the company deals out comes in another way. -/
def edit (w : CorpWorld) (op : DialogsOp) : Option CorpWorld :=
  match w.active, op with
  | none, _ => none
  | some _, .corporateKeyring .. => none
  | some profile, op =>
      (Dialogs.step (w.dialogs profile) op).map (fun dialogs =>
        { w with
          dialogs := Function.update w.dialogs profile dialogs
          own := Function.update w.own profile (w.own profile
            ++ (dialogs.flatMap Dialog.keyring).filter
              (· ∉ (w.dialogs profile).flatMap Dialog.keyring)) })

/-- `fetchCorporateRoster`, `addCorporateDialogue`, `syncCorporateKeyring`. -/
def start (w : CorpWorld) (request : CorpRequest) : CorpWorld :=
  match w.active with
  | none => w
  | some profile =>
      match configs profile with
      | none => w
      | some config =>
          match request with
          | .dialogue partner label =>
              let partner := Dialogs.trimmed partner
              if partner = "" then w
              else { w with
                fetches := ⟨profile, config, .dialogue partner (Dialogs.trimmed label)⟩ :: w.fetches }
          | request => { w with fetches := ⟨profile, config, request⟩ :: w.fetches }

/-- What the main thread makes of a text, for the profile that is active. -/
def apply (w : CorpWorld) (request : CorpRequest) (text : String) : CorpWorld :=
  match w.active with
  | none => w
  | some profile =>
      let put (dialogs : List Dialog) : CorpWorld :=
        { w with dialogs := Function.update w.dialogs profile dialogs }
      let root := QtText.fromJson text
      match request with
      | .keyring => put (Dialogs.applyCorporateKeyring (w.dialogs profile) (rosterOf root)
          (keyringOf root))
      | .dialogue partner label => put (putDialogueKey (w.dialogs profile) partner label root)
      | .roster =>
          let w' := put (Dialogs.applyCorporateRosterNames (w.dialogs profile) (rosterOf root))
          match autoAdd root (w.dialogs profile) with
          | none => w'
          | some (partner, label) => start configs w' (.dialogue partner label)

/-- The text the worker has got; nothing is made of an empty one. -/
def textOf (f : CorpFetch) (answer : Answer) : Option String :=
  match Corp.fetch f.request.resource f.config.serverId f.config.signingKey f.config.psk answer with
  | .error _ => none
  | .ok text => if text = "" then none else some text

def step (w : CorpWorld) : CorpLabel → Option CorpWorld
  | .activate profile => some { w with active := profile }
  | .edit op => edit w op
  | .request request => some (start configs w request)
  | .answer f answer =>
      if f ∈ w.fetches then
        let w' := { w with fetches := w.fetches.erase f }
        match textOf f answer with
        | none => some w'
        | some text => some (apply configs w' f.request text)
      else none

def init : CorpWorld := ⟨none, fun _ => [], [], fun _ => []⟩

end CorpWorld

end Paranoia
