import Mathlib.Logic.Function.Basic
import Paranoia.Lib.Lts
import Paranoia.Lib.Table

/-!
# Changing the PIN while the client writes

The client lists the files that are to be brought under the new keys and then hands them to the
vault one by one. Workers that were started before go on writing: what they write is encrypted with
the active keys first, and is on disk some time later.

A file is a row here, with the master its keys come from and what was written: it opens under that
master and no other. The side files of a database belong to its row. What a crash leaves of a
change is the matter of the vault.
-/

namespace Paranoia

/-- A path below the root of the app's data. -/
abbrev DataPath := List String

namespace Paths

def vaultState : DataPath := ["vault.json"]
def profilesManifest : DataPath := ["profiles.json"]
def deviceKey : DataPath := ["device_key.json"]
def pendingRegistrationKey : DataPath := ["pending_registration_key.json"]
def admins : DataPath := ["admins.crypt"]
def profileClient (profileId : String) : DataPath := ["profiles", profileId, "client.json"]
def profileCorp (profileId : String) : DataPath := ["profiles", profileId, "corp.json"]
def profileMaskingState (profileId : String) : DataPath :=
  ["profiles", profileId, "masking_state.json"]
def profileDialogs (profileId : String) : DataPath := ["profiles", profileId, "dialogs.json"]
def profileDb (profileId : String) : DataPath := ["profiles", profileId, "paranoia.db"]

/-- Where the library keeps what was attached to a message. -/
def attachmentEnc (profileId messageId : String) : DataPath :=
  ["profiles", profileId, "attachment-cache", messageId ++ ".enc"]

/-- The rule is one of prefixes. -/
def isVaultProtected (path : DataPath) : Bool :=
  path ≠ vaultState
    ∧ (path ∈ [profilesManifest, deviceKey, pendingRegistrationKey, admins]
      ∨ (path.head? = some "profiles" ∧ 2 ≤ path.length))

/-- The directory of a profile, if the path is below one. -/
def profileOf : DataPath → Option String
  | "profiles" :: profileId :: _ :: _ => some profileId
  | _ => none

/-- What `entryInfoList` passes over, since nothing asks for `QDir::Hidden`. -/
def isHidden (name : String) : Bool := name.toList.head? = some '.'

/-- The filter `*.enc`, which does not look at the case. -/
def isEnc (name : String) : Bool := ".enc".toList.isSuffixOf (name.toList.map Char.toLower)

/-- `*.enc` in the attachment cache of a profile. -/
def isAttachment (profileId : String) : DataPath → Bool
  | [top, id, dir, name] =>
      top = "profiles" ∧ id = profileId ∧ dir = "attachment-cache" ∧ isEnc name ∧ ¬ isHidden name
  | _ => false

/-- The files a change of the PIN works on, of those that exist: JSON files, databases and
attachments. -/
def listed (files : List DataPath) : List DataPath :=
  let profileIds := ((files.filterMap profileOf).dedup).filter (¬ isHidden ·)
  [profilesManifest, deviceKey, pendingRegistrationKey, admins].filter (· ∈ files)
    ++ profileIds.flatMap (fun id => [profileClient id, profileDialogs id].filter (· ∈ files))
    ++ (profileIds.map profileDb).filter (· ∈ files)
    ++ profileIds.flatMap (fun id => files.filter (isAttachment id))

end Paths

variable {κ γ : Type} [DecidableEq κ]

structure SealedFile (κ γ : Type) where
  path : DataPath
  master : κ
  content : γ
deriving DecidableEq

/-- A copy in the staging directory, or the note that there was nothing to copy. -/
structure StagedBackup (κ γ : Type) where
  path : DataPath
  file : Option (SealedFile κ γ)

/-- How far the vault has come with the file at hand. -/
inductive RekeyStage (γ : Type)
  | next
  | staged (path : DataPath)
  | opened (path : DataPath) (content : γ)
deriving DecidableEq

structure PinRekey (κ γ : Type) where
  master : κ
  todo : List DataPath
  stage : RekeyStage γ
  backups : Table (StagedBackup κ γ) StagedBackup.path

inductive PinChange (κ γ : Type)
  | idle
  | listed (todo : List DataPath)
  | verified (todo : List DataPath)
  | rekeying (r : PinRekey κ γ)

structure PinWorld (κ γ : Type) where
  files : Table (SealedFile κ γ) SealedFile.path
  active : κ
  /-- What writers have encrypted and not yet put in place. -/
  writes : List (SealedFile κ γ)
  change : PinChange κ γ
  /-- What the last change has returned. -/
  result : Option Int
  /-- Set when a protected file does not open. -/
  vaultIoFailure : Bool
  /-- What was last put in place at a path. -/
  last : DataPath → Option γ

inductive PinLabel (κ γ : Type)
  /-- `Utils::writeFile`. -/
  | writeFile (path : DataPath) (content : γ)
  /-- The database or an attachment, which the library writes. -/
  | writeStore (path : DataPath) (content : γ)
  | land (i : Nat)
  | remove (path : DataPath)
  | readAll (path : DataPath)
  | changePin
  | verify (rc : Int)
  /-- With the new master, unless beginning fails. -/
  | rekeyBegin (master : Option κ)
  | stageBackup
  | decrypt
  | encrypt
  | rekeyFails
  | rekeyCommit
deriving DecidableEq

namespace PinWorld

def file (w : PinWorld κ γ) (path : DataPath) : Option (SealedFile κ γ) :=
  w.files.find? fun f => f.path = path

/-- What a file opens to under the active keys. -/
def decrypt (w : PinWorld κ γ) (f : SealedFile κ γ) : Option γ :=
  if f.master = w.active then some f.content else none

def encrypted (w : PinWorld κ γ) (path : DataPath) (content : γ) : PinWorld κ γ :=
  { w with writes := w.writes ++ [⟨path, w.active, content⟩] }

def land (w : PinWorld κ γ) (i : Nat) : Option (PinWorld κ γ) :=
  w.writes[i]?.map fun f =>
    { w with
      files := w.files.insertOrReplace f
      writes := w.writes.eraseIdx i
      last := Function.update w.last f.path (some f.content) }

/-- A file that is there and does not open is taken for a damaged one. -/
def readAll (w : PinWorld κ γ) (path : DataPath) : PinWorld κ γ :=
  { w with vaultIoFailure := w.vaultIoFailure
      ∨ (w.file path).any fun f => (w.decrypt f).isNone }

/-- Put one backup in place. -/
def restore (files : Table (SealedFile κ γ) SealedFile.path) (b : StagedBackup κ γ) :
    Table (SealedFile κ γ) SealedFile.path :=
  match b.file with
  | some f => files.insertOrReplace f
  | none => files.deleteWhere fun f => f.path = b.path

def abort (w : PinWorld κ γ) (r : PinRekey κ γ) : PinWorld κ γ :=
  { w with
    files := r.backups.rows.reverse.foldl restore w.files
    change := .idle
    result := some (-1) }

def rekey (w : PinWorld κ γ) (r : PinRekey κ γ) : PinWorld κ γ := { w with change := .rekeying r }

/-- What there is at the path is copied before anything else is done with it. -/
def stageBackup (w : PinWorld κ γ) (r : PinRekey κ γ) : Option (PinWorld κ γ) :=
  match r.stage, r.todo with
  | .next, path :: todo =>
      let backups := match w.file path with
        | some f => r.backups.insertOrReplace ⟨path, some f⟩
        | none => r.backups.insertOrIgnore ⟨path, none⟩
      some (w.rekey { r with todo, stage := .staged path, backups })
  | _, _ => none

/-- A file that is not there, or does not open, ends the change. -/
def openFile (w : PinWorld κ γ) (r : PinRekey κ γ) : Option (PinWorld κ γ) :=
  match r.stage with
  | .staged path =>
      match (w.file path).bind w.decrypt with
      | some content => some (w.rekey { r with stage := .opened path content })
      | none => some (w.abort r)
  | _ => none

def sealFile (w : PinWorld κ γ) (r : PinRekey κ γ) : Option (PinWorld κ γ) :=
  match r.stage with
  | .opened path content =>
      some { w with
        files := w.files.insertOrReplace ⟨path, r.master, content⟩
        change := .rekeying { r with stage := .next } }
  | _ => none

/-- The failure is forgotten once the client opens the vault again. -/
def commit (w : PinWorld κ γ) (r : PinRekey κ γ) : Option (PinWorld κ γ) :=
  match r.stage, r.todo with
  | .next, [] => some { w with
      active := r.master, change := .idle, result := some 0, vaultIoFailure := false }
  | _, _ => none

def step (w : PinWorld κ γ) : PinLabel κ γ → Option (PinWorld κ γ)
  | .writeFile path content =>
      if Paths.isVaultProtected path ∧ ¬ w.vaultIoFailure then some (w.encrypted path content)
      else none
  | .writeStore path content =>
      if Paths.isVaultProtected path then some (w.encrypted path content) else none
  | .land i => w.land i
  | .remove path => some { w with files := w.files.deleteWhere fun f => f.path = path }
  | .readAll path => some (w.readAll path)
  | .changePin =>
      match w.change with
      | .idle => some { w with
          change := .listed (Paths.listed (w.files.rows.map SealedFile.path)), result := none }
      | _ => none
  | .verify rc =>
      match w.change with
      | .listed todo =>
          if rc = 0 then some { w with change := .verified todo }
          else some { w with change := .idle, result := some (if rc = 1 then 1 else -1) }
      | _ => none
  | .rekeyBegin master =>
      match w.change, master with
      | .verified todo, some master => some (w.rekey ⟨master, todo, .next, .empty⟩)
      | .verified _, none => some { w with change := .idle, result := some (-1) }
      | _, _ => none
  | .stageBackup => match w.change with
      | .rekeying r => w.stageBackup r
      | _ => none
  | .decrypt => match w.change with
      | .rekeying r => w.openFile r
      | _ => none
  | .encrypt => match w.change with
      | .rekeying r => w.sealFile r
      | _ => none
  | .rekeyFails => match w.change with
      | .rekeying r => some (w.abort r)
      | _ => none
  | .rekeyCommit => match w.change with
      | .rekeying r => w.commit r
      | _ => none

/-- Every file opens to what was last written to it. -/
def Readable (w : PinWorld κ γ) : Prop :=
  ∀ f ∈ w.files, w.decrypt f = some f.content ∧ w.last f.path = some f.content

instance [DecidableEq γ] (w : PinWorld κ γ) : Decidable w.Readable :=
  inferInstanceAs (Decidable (∀ f ∈ w.files.rows, _ ∧ _))

/-- The paths that the change under way has still to come to. -/
def Ahead (w : PinWorld κ γ) (path : DataPath) : Prop :=
  match w.change with
  | .idle => True
  | .listed todo => path ∈ todo
  | .verified todo => path ∈ todo
  | .rekeying r => path ∈ r.todo

instance (w : PinWorld κ γ) (path : DataPath) : Decidable (w.Ahead path) :=
  match h : w.change with
  | .idle => .isTrue (by rw [Ahead, h]; trivial)
  | .listed todo => decidable_of_iff (path ∈ todo) (by rw [Ahead, h])
  | .verified todo => decidable_of_iff (path ∈ todo) (by rw [Ahead, h])
  | .rekeying r => decidable_of_iff (path ∈ r.todo) (by rw [Ahead, h])

/-- A change is begun only when all there is gets listed, and a write is put in place only under
the keys it was made with and where the change under way has still to come. -/
def Undisturbed (w : PinWorld κ γ) : PinLabel κ γ → Prop
  | .changePin => ∀ f ∈ w.files, f.path ∈ Paths.listed (w.files.rows.map SealedFile.path)
  | .land i => ∀ f ∈ w.writes[i]?, f.master = w.active ∧ w.Ahead f.path
  | _ => True

instance (w : PinWorld κ γ) (l : PinLabel κ γ) : Decidable (w.Undisturbed l) :=
  match l with
  | .changePin => inferInstanceAs (Decidable (∀ f ∈ w.files.rows, _))
  | .land i => inferInstanceAs (Decidable (∀ f ∈ w.writes[i]?, _))
  | .writeFile .. | .writeStore .. | .remove .. | .readAll .. | .verify .. | .rekeyBegin ..
  | .stageBackup | .decrypt | .encrypt | .rekeyFails | .rekeyCommit => .isTrue trivial

end PinWorld

end Paranoia
