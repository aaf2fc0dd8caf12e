import Paranoia.Client.Vault

/-!
# Undoing a rekey on a disk that fails

Aborting a rekey and recovering from one that was cut off read the manifest, put the copies back in
reverse order and remove the staging directory. Every operation on a file may return an error, and
the code goes on without looking at most of them. Which ones fail is a parameter of a call; what a
failed removal of the directory has already deleted is another.
-/

namespace Paranoia

/-- A file that is decoded when it is read. -/
inductive OnDisk (α : Type)
  | absent
  | garbage
  | holds (value : α)
  deriving DecidableEq

namespace OnDisk

def isAbsent {α : Type} : OnDisk α → Bool
  | .absent => true
  | _ => false

def value? {α : Type} : OnDisk α → Option α
  | .holds value => some value
  | _ => none

end OnDisk

/-- What is there when the process looks for a rekey to undo. -/
structure RekeyDisk where
  files : FilePath → Option (List UInt8)
  staging : Bool
  manifest : OnDisk RekeyManifest
  /-- The copies, by the path they were made from. -/
  backups : FilePath → Option (List UInt8)
  /-- The salt in `vault.json`. -/
  vault : OnDisk (List UInt8)
  /-- What this call has put back. -/
  restored : List FilePath

/-- What is left of the staging directory when its removal fails. -/
structure Leftover where
  manifest : Bool
  backup : FilePath → Bool

/-- The operations of one call that fail. An entry is met by its place in the reversed manifest. -/
structure FileFaults where
  /-- Looking whether there is a manifest. -/
  statManifest : Bool
  /-- Reading it to compare the salts. -/
  readManifest : Bool
  readVault : Bool
  /-- Reading it to restore. -/
  rereadManifest : Bool
  /-- Looking whether the copy of an entry is there. -/
  statBackup : Nat → Bool
  /-- Renaming the copy to the file, or removing what was not there before. -/
  restore : Nat → Bool
  removeDir : Option Leftover

namespace RekeyDisk

variable (f : FileFaults)

/-- One round of the loop. Its errors are ignored. -/
def restoreEntry (i : Nat) (e : RekeyEntry) (d : RekeyDisk) : RekeyDisk :=
  if e.backup then
    match d.backups e.orig with
    | none => d
    | some bytes =>
        if f.statBackup i || f.restore i then d
        else { d with files := Function.update d.files e.orig (some bytes)
                      backups := Function.update d.backups e.orig none
                      restored := e.orig :: d.restored }
  else if f.restore i then d
  else { d with files := Function.update d.files e.orig none }

def restoreEntries (i : Nat) : List RekeyEntry → RekeyDisk → RekeyDisk
  | [], d => d
  | e :: es, d => restoreEntries (i + 1) es (d.restoreEntry f i e)

def restoreFromManifest (d : RekeyDisk) : RekeyDisk :=
  if f.rereadManifest then d
  else match d.manifest with
    | .holds m => restoreEntries f 0 m.entries.reverse d
    | _ => d

def removeStaging (d : RekeyDisk) : RekeyDisk :=
  match f.removeDir with
  | none => { d with staging := false, manifest := .absent, backups := fun _ => none }
  | some left =>
      { d with manifest := if left.manifest then d.manifest else .absent
               backups := fun path => if left.backup path then d.backups path else none }

/-- `pending` says whether a rekey is under way. -/
def rekeyAbort (pending : Bool) (d : RekeyDisk) : RekeyDisk :=
  let d := { d with restored := [] }
  if ¬ pending then d else (d.restoreFromManifest f).removeStaging f

/-- The disk after the call, and whether it returned without an error. -/
def recoverPendingRekey (d : RekeyDisk) : RekeyDisk × Bool :=
  let d := { d with restored := [] }
  if ¬ d.staging then (d, true)
  else if f.statManifest || d.manifest.isAbsent then (d.removeStaging f, true)
  else if f.readManifest then (d, false)
  else match d.manifest.value? with
    | none => (d, false)
    | some m =>
        if f.readVault then (d, false)
        else match d.vault with
          | .garbage => (d, false)
          | .holds salt =>
              if salt = m.newSalt then (d.removeStaging f, true)
              else ((d.restoreFromManifest f).removeStaging f, true)
          | .absent => ((d.restoreFromManifest f).removeStaging f, true)

/-! ## What must not happen -/

/-- `vault.json` is the one that the rekey was to bring. -/
def Committed (d : RekeyDisk) (m : RekeyManifest) : Prop := d.vault = .holds m.newSalt

instance (d : RekeyDisk) (m : RekeyManifest) : Decidable (d.Committed m) :=
  inferInstanceAs (Decidable (d.vault = .holds m.newSalt))

/-- A copy that the manifest records of a rekey that was not committed. -/
def Owed (d : RekeyDisk) (path : FilePath) : Prop :=
  ∃ m, d.manifest = .holds m ∧ ¬ d.Committed m ∧ ⟨path, true⟩ ∈ m.entries ∧ d.backups path ≠ none

/-- Every such copy has been put back, and the file holds what was in it, or the copy is still
there, and the manifest too. -/
def KeepsBackups (d d' : RekeyDisk) : Prop :=
  ∀ path, d.Owed path →
    (path ∈ d'.restored ∧ d'.files path = d.backups path) ∨
      d'.backups path = d.backups path ∧ d'.manifest = d.manifest

/-! ## What it depends on -/

/-- At this entry and place the copy of the path is found and renamed. -/
def Renamed (path : FilePath) (x : RekeyEntry × Nat) : Prop :=
  x.1 = ⟨path, true⟩ ∧ f.statBackup x.2 = false ∧ f.restore x.2 = false

/-- At this entry and place the file of the path is taken for one that was not there before. -/
def Removed (path : FilePath) (x : RekeyEntry × Nat) : Prop :=
  x.1 = ⟨path, false⟩ ∧ f.restore x.2 = false

instance (path : FilePath) (x : RekeyEntry × Nat) : Decidable (Removed f path x) :=
  inferInstanceAs (Decidable (_ ∧ _))

/-- The manifest can be read, and at some entry of the path its copy is found and renamed. -/
def Renames (d : RekeyDisk) (path : FilePath) : Prop :=
  f.rereadManifest = false ∧ ∃ m, d.manifest = .holds m ∧
    ∃ x ∈ m.entries.reverse.zipIdx, Renamed f path x

/-- No entry after that one removes the file again. -/
def Stays (d : RekeyDisk) (path : FilePath) : Prop :=
  ∀ m, d.manifest = .holds m →
    m.entries.reverse.zipIdx.Pairwise fun x y => Renamed f path x → ¬ Removed f path y

/-- The copy is put back for good. -/
def PutsBack (d : RekeyDisk) (path : FilePath) : Prop := d.Renames f path ∧ d.Stays f path

/-- The removal fails before it comes to the copy and to the manifest. -/
def Leaves (path : FilePath) : Prop :=
  ∃ left ∈ f.removeDir, left.manifest = true ∧ left.backup path = true

/-- The recovery gives up, or has nothing to do, before it touches anything. -/
def StopsEarly (d : RekeyDisk) : Prop :=
  d.staging = false ∨ f.statManifest = false ∧
    (f.readManifest = true ∨ f.readVault = true ∨ d.vault = .garbage)

end RekeyDisk

end Paranoia
