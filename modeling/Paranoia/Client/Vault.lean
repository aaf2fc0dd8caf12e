import Mathlib.Algebra.Order.Ring.Int
import Mathlib.Data.List.Basic
import Mathlib.Logic.Function.Basic

/-!
# The local vault and the change of its keys

A client keeps its files, attachments and databases encrypted under keys that come from a PIN and
the salt in `vault.json`. Changing the PIN rewrites every one of them: each is copied to a staging
directory first, a manifest says what was copied, and saving `vault.json` with the new salt is the
commit. Aborting, or recovering at the next start, puts the copies back.

Every step here is one that the file system makes whole, a rename or the deletion of one file, and
the process may die between any two of them. What SQLite writes while it changes the key of a
database is not known, and neither is the order in which a directory is deleted.
-/

namespace Paranoia

abbrev FilePath := String

/-- The keys of a vault are derived from its master with a label each, those of attachments with a
salt of their own. -/
inductive VaultKey (μ : Type)
  | json (master : μ)
  | attachment (master : μ) (salt : List UInt8)
  deriving DecidableEq

/-- What the vault is built from: the key derivation, an authenticated cipher, which opens nothing
under any other key than it was sealed with, and SQLCipher, which reads a database through its
write-ahead log and the index of it. -/
class VaultCrypto (μ : outParam Type) where
  deriveMaster : String → List UInt8 → μ
  sealBytes : VaultKey μ → (nonce plaintext : List UInt8) → List UInt8
  openBytes : VaultKey μ → List UInt8 → Option (List UInt8)
  openDb : μ → List UInt8 → (wal shm : Option (List UInt8)) → Option (List UInt8)
  open_sealBytes : ∀ k nonce m, openBytes k (sealBytes k nonce m) = some m
  key_of_open : ∀ k k' nonce m m', openBytes k' (sealBytes k nonce m) = some m' → k' = k

variable {μ : Type} [VaultCrypto μ]

open VaultCrypto

/-! ## Files -/

/-- `PVL1`, which every encrypted file begins with. -/
def fileMagic : List UInt8 := [80, 86, 76, 49]

def encryptFile (key : VaultKey μ) (nonce plaintext : List UInt8) : List UInt8 :=
  fileMagic ++ sealBytes key nonce plaintext

def decryptFile (key : VaultKey μ) (bytes : List UInt8) : Option (List UInt8) :=
  if bytes.take 4 = fileMagic then openBytes key (bytes.drop 4) else none

theorem decryptFile_encryptFile (key : VaultKey μ) (nonce plaintext : List UInt8) :
    decryptFile key (encryptFile key nonce plaintext) = some plaintext := by
  have htake : (encryptFile key nonce plaintext).take 4 = fileMagic := rfl
  have hdrop : (encryptFile key nonce plaintext).drop 4 = sealBytes key nonce plaintext := rfl
  rw [decryptFile, if_pos htake, hdrop, open_sealBytes]

/-- A path with the way it is read. -/
inductive VaultFile
  | json (path : FilePath)
  | attachment (salt : List UInt8) (path : FilePath)
  | db (path : FilePath)
  deriving DecidableEq

def walOf (db : FilePath) : FilePath := db ++ "-wal"

def shmOf (db : FilePath) : FilePath := db ++ "-shm"

namespace VaultFile

/-- Everything on the disk that the file is read from. -/
def footprint : VaultFile → List FilePath
  | .json path => [path]
  | .attachment _ path => [path]
  | .db path => [path, walOf path, shmOf path]

/-- What the keys of a master make of the file. -/
def read (master : μ) (files : FilePath → Option (List UInt8)) : VaultFile → Option (List UInt8)
  | .json path => (files path).bind (decryptFile (.json master))
  | .attachment salt path => (files path).bind (decryptFile (.attachment master salt))
  | .db path => (files path).bind fun bytes => openDb master bytes (files (walOf path)) (files (shmOf path))

/-- What a rekey copies before it touches the file. The companions of a database are copied only
if they are there. -/
def toStage : VaultFile → List (FilePath × Bool)
  | .json path => [(path, false)]
  | .attachment _ path => [(path, false)]
  | .db path => [(path, false), (walOf path, true), (shmOf path, true)]

end VaultFile

/-! ## State of the vault -/

/-- `vault.json`. -/
structure VaultState where
  salt : List UInt8
  verifier : List UInt8
  failedCount : Nat
  /-- In nanoseconds, as all times here. -/
  lockoutUntil : Option Nat
  deriving DecidableEq

namespace VaultState

/-- `{"v":1,"verifier":"paranoia-vault-v1"}`. -/
def verifierPlaintext : List UInt8 :=
  [123, 34, 118, 34, 58, 49, 44, 34, 118, 101, 114, 105, 102, 105, 101, 114, 34, 58, 34, 112, 97,
    114, 97, 110, 111, 105, 97, 45, 118, 97, 117, 108, 116, 45, 118, 49, 34, 125]

def newFresh (salt verifier : List UInt8) : VaultState :=
  { salt, verifier, failedCount := 0, lockoutUntil := none }

/-- The master, if the PIN is the right one. -/
def verifyPin (v : VaultState) (pin : String) : Option μ :=
  let master := deriveMaster pin v.salt
  if openBytes (.json master) v.verifier = some verifierPlaintext then some master else none

/-- In whole seconds. -/
def lockoutRemaining (v : VaultState) (now : Nat) : Nat :=
  match v.lockoutUntil with
  | none => 0
  | some til => (til - now) / 1000000000

inductive LockoutAction
  | none
  | forSecs (secs : Nat)
  | exhaustedUntilRestart

def lockoutForFailures (failedCount : Nat) : LockoutAction :=
  if failedCount ≤ 5 then .none
  else if failedCount ≤ 10 then .forSecs 30
  else if failedCount ≤ 15 then .forSecs (5 * 60)
  else if failedCount ≤ 20 then .forSecs (30 * 60)
  else .exhaustedUntilRestart

/-- The state after a wrong PIN, and whether no further one is taken until the next start. -/
def applyFailedAttempt (v : VaultState) (now : Nat) : VaultState × Bool :=
  let failed := min (v.failedCount + 1) (2 ^ 32 - 1)
  match lockoutForFailures failed with
  | .none => ({ v with failedCount := failed, lockoutUntil := none }, false)
  | .forSecs secs =>
      ({ v with failedCount := failed, lockoutUntil := some (now + secs * 1000000000) }, false)
  | .exhaustedUntilRestart => ({ v with failedCount := failed, lockoutUntil := none }, true)

end VaultState

/-! ## State of a rekey -/

/-- What was copied, or that there was nothing to copy. A copy stands in the staging directory
under the hash of the path it was made from. -/
structure RekeyEntry where
  orig : FilePath
  backup : Bool
  deriving DecidableEq

structure RekeyManifest where
  newSalt : List UInt8
  entries : List RekeyEntry
  deriving DecidableEq

namespace RekeyManifest

def Enlists (m : RekeyManifest) (path : FilePath) : Prop := ∃ e ∈ m.entries, e.orig = path

instance (m : RekeyManifest) (path : FilePath) : Decidable (m.Enlists path) :=
  inferInstanceAs (Decidable (∃ e ∈ m.entries, e.orig = path))

/-- An absent path is entered once. -/
def enlistAbsent (m : RekeyManifest) (path : FilePath) : RekeyManifest :=
  if m.Enlists path then m else { m with entries := m.entries ++ [⟨path, false⟩] }

/-- A copied path has one entry, which says so. -/
def enlistCopied (m : RekeyManifest) (path : FilePath) : RekeyManifest :=
  if m.Enlists path then
    { m with entries := m.entries.map fun e => if e.orig = path then ⟨path, true⟩ else e }
  else { m with entries := m.entries ++ [⟨path, true⟩] }

end RekeyManifest

structure PendingVault (μ : Type) where
  newSalt : List UInt8
  master : μ
  manifest : RekeyManifest

/-- A call of `unlock`, or else of `verify_pin`, that has read `vault.json` and not yet saved it. -/
structure Login where
  unlock : Bool
  pin : String
  state : VaultState

/-- How far the call that works on files has come. -/
inductive RekeyAt (μ : Type)
  | idle
  /-- Beginning: the staging directory is there. -/
  | beginManifest (pending : PendingVault μ)
  /-- Beginning: the manifest is there too. -/
  | beginPending (pending : PendingVault μ)
  /-- Rekeying a file, with these paths still to be copied. -/
  | staging (file : VaultFile) (todo : List (FilePath × Bool))
  /-- The copy of a path is there and the manifest does not say so yet. -/
  | copied (file : VaultFile) (path : FilePath) (todo : List (FilePath × Bool))
  /-- Everything is copied and the file is next. -/
  | working (file : VaultFile)
  /-- SQLite is rewriting a database, which read so before. -/
  | sqlite (path : FilePath) (plaintext : Option (List UInt8))
  /-- Committing: `vault.json` is saved. -/
  | install
  | restoring (entries : List RekeyEntry)
  | removing

def RekeyAt.isIdle : RekeyAt μ → Bool
  | .idle => true
  | _ => false

structure VaultWorld (μ : Type) where
  files : FilePath → Option (List UInt8)
  vault : VaultState
  /-- Whether the staging directory is there. -/
  staging : Bool
  manifest : Option RekeyManifest
  backups : FilePath → Option (List UInt8)
  active : Option μ
  pending : Option (PendingVault μ)
  exhausted : Bool
  logins : List Login
  stage : RekeyAt μ
  /-- Files, `vault.json` and keys as the last rekey found them. -/
  orig : FilePath → Option (List UInt8)
  oldVault : VaultState
  oldMaster : μ
  /-- The keys that it is to bring. -/
  newMaster : μ
  /-- What it has rewritten. -/
  rekeyed : List VaultFile

inductive VaultLabel
  | rekeyBegin (newPin : String) (newSalt : List UInt8)
  /-- `rekey_file`, `rekey_attachment` or `rekey_db`. -/
  | rekey (file : VaultFile)
  | rekeyCommit (nonce : List UInt8)
  | rekeyAbort
  | recoverPendingRekey
  /-- The next step of the call under way. -/
  | tick (nonce : List UInt8)
  | sqliteWrite (path : FilePath) (bytes : Option (List UInt8))
  | sqliteEnd (ok : Bool)
  | unlinkManifest
  | unlinkBackup (path : FilePath)
  | login (unlock : Bool) (pin : String) (now : Nat)
  | loginEnd (i : Nat) (now : Nat)
  | crash

namespace VaultWorld

/-! ## Calls -/

def rekeyBegin (w : VaultWorld μ) (newPin : String) (newSalt : List UInt8) :
    Option (VaultWorld μ) :=
  match w.active with
  | none => none
  | some master =>
      -- a salt from the generator of the system is not the one in use
      if newPin = "" ∨ w.pending.isSome ∨ w.staging ∨ newSalt = w.vault.salt then none
      else
        let newMaster := deriveMaster newPin newSalt
        some { w with
          staging := true
          stage := .beginManifest { newSalt, master := newMaster, manifest := ⟨newSalt, []⟩ }
          orig := w.files
          oldVault := w.vault
          oldMaster := master
          newMaster
          rekeyed := [] }

/-- The three calls copy first, whatever the file is. That of a database looks for the keys before
it does. -/
def rekey (w : VaultWorld μ) (file : VaultFile) : Option (VaultWorld μ) :=
  match w.pending, w.active, file with
  | none, _, _ => none
  | some _, none, .db _ => none
  | some _, _, _ => some { w with stage := .staging file file.toStage
                                  rekeyed := w.rekeyed.filter (· ≠ file) }

/-- The one write that commits. -/
def rekeyCommit (w : VaultWorld μ) (nonce : List UInt8) : Option (VaultWorld μ) :=
  match w.pending with
  | none => none
  | some p =>
      let verifier := sealBytes (.json p.master) nonce VaultState.verifierPlaintext
      some { w with vault := VaultState.newFresh p.newSalt verifier, stage := .install }

/-- Entries are undone in reverse. Without a manifest there is nothing to undo. -/
def restoreFromManifest (w : VaultWorld μ) : RekeyAt μ :=
  match w.manifest with
  | none => .removing
  | some m => .restoring m.entries.reverse

def rekeyAbort (w : VaultWorld μ) : Option (VaultWorld μ) :=
  if w.pending.isNone then none
  else some { w with pending := none, stage := w.restoreFromManifest }

/-- Run when the process starts. A manifest whose salt is already that of `vault.json` belongs to a
rekey that was committed. -/
def recoverPendingRekey (w : VaultWorld μ) : Option (VaultWorld μ) :=
  if w.pending.isSome then none
  else if ¬ w.staging then some w
  else
    match w.manifest with
    | none => some { w with stage := .removing }
    | some m =>
        if w.vault.salt = m.newSalt then some { w with stage := .removing }
        else some { w with stage := w.restoreFromManifest }

/-! ## Steps of a call -/

/-- Bring the file under the new keys, if the active ones open it. -/
def work (w : VaultWorld μ) (pending : PendingVault μ) (active : μ) (nonce : List UInt8) :
    VaultFile → VaultWorld μ
  | .json path =>
      match VaultFile.read active w.files (.json path) with
      | none => { w with stage := .idle }
      | some plaintext =>
          let bytes := encryptFile (.json pending.master) nonce plaintext
          { w with files := Function.update w.files path (some bytes)
                   rekeyed := .json path :: w.rekeyed
                   stage := .idle }
  | .attachment salt path =>
      match VaultFile.read active w.files (.attachment salt path) with
      | none => { w with stage := .idle }
      | some plaintext =>
          let bytes := encryptFile (.attachment pending.master salt) nonce plaintext
          { w with files := Function.update w.files path (some bytes)
                   rekeyed := .attachment salt path :: w.rekeyed
                   stage := .idle }
  | .db path =>
      -- a database that is not there is made
      match w.files path, VaultFile.read active w.files (.db path) with
      | some _, none => { w with stage := .idle }
      | _, plaintext => { w with stage := .sqlite path plaintext }

/-- Put a copy back, or delete what was not there. -/
def restoreEntry (w : VaultWorld μ) (e : RekeyEntry) : VaultWorld μ :=
  if e.backup then
    match w.backups e.orig with
    | none => w
    | some bytes => { w with files := Function.update w.files e.orig (some bytes)
                             backups := Function.update w.backups e.orig none }
  else { w with files := Function.update w.files e.orig none }

def setManifest (w : VaultWorld μ) (p : PendingVault μ) (m : RekeyManifest) : VaultWorld μ :=
  { w with pending := some { p with manifest := m }, manifest := some m }

def tick (w : VaultWorld μ) (nonce : List UInt8) : Option (VaultWorld μ) :=
  match w.stage, w.pending with
  | .beginManifest p, _ => some { w with manifest := some p.manifest, stage := .beginPending p }
  | .beginPending p, _ => some { w with pending := some p, stage := .idle }
  | .staging file [], _ => some { w with stage := .working file }
  | .staging file ((path, ifThere) :: todo), some p =>
      match w.files path with
      | some bytes =>
          some { w with backups := Function.update w.backups path (some bytes)
                        stage := .copied file path todo }
      | none =>
          if ifThere then some { w with stage := .staging file todo }
          else some { w.setManifest p (p.manifest.enlistAbsent path) with stage := .staging file todo }
  | .copied file path todo, some p =>
      some { w.setManifest p (p.manifest.enlistCopied path) with stage := .staging file todo }
  | .working file, some p =>
      match w.active with
      | none => some { w with stage := .idle }
      | some active => some (w.work p active nonce file)
  | .install, some p => some { w with pending := none, active := some p.master, stage := .removing }
  | .restoring [], _ => some { w with stage := .removing }
  | .restoring (e :: es), _ => some { w.restoreEntry e with stage := .restoring es }
  | .removing, _ =>
      some { w with staging := false, manifest := none, backups := fun _ => none, stage := .idle }
  | _, _ => none

def sqliteWrite (w : VaultWorld μ) (path : FilePath) (bytes : Option (List UInt8)) :
    Option (VaultWorld μ) :=
  match w.stage with
  | .sqlite db _ =>
      if path ∈ (VaultFile.db db).footprint then
        some { w with files := Function.update w.files path bytes }
      else none
  | _ => none

/-- SQLCipher reports success only when the database reads under the new key as it did before under
the old one. -/
def sqliteEnd (w : VaultWorld μ) (ok : Bool) : Option (VaultWorld μ) :=
  match w.stage, w.pending with
  | .sqlite db plaintext, some p =>
      if ok then
        if plaintext.isSome ∧ (VaultFile.db db).read p.master w.files ≠ plaintext then none
        else some { w with stage := .idle, rekeyed := .db db :: w.rekeyed }
      else some { w with stage := .idle }
  | _, _ => none

def login (w : VaultWorld μ) (unlock : Bool) (pin : String) (now : Nat) : Option (VaultWorld μ) :=
  if w.exhausted ∨ 0 < w.vault.lockoutRemaining now then none
  else some { w with logins := ⟨unlock, pin, w.vault⟩ :: w.logins }

/-- Saves what was read, with its counters changed. -/
def loginEnd (w : VaultWorld μ) (i now : Nat) : Option (VaultWorld μ) :=
  match w.logins[i]? with
  | none => none
  | some l =>
      let logins := w.logins.eraseIdx i
      match l.state.verifyPin l.pin with
      | some master =>
          some { w with vault := { l.state with failedCount := 0, lockoutUntil := none }
                        exhausted := false
                        active := if l.unlock then some master else w.active
                        logins }
      | none =>
          let (vault, exhausted) := l.state.applyFailedAttempt now
          some { w with vault, exhausted := exhausted || w.exhausted, logins }

/-- What is on the disk stays. -/
def crash (w : VaultWorld μ) : VaultWorld μ :=
  { w with active := none, pending := none, exhausted := false, logins := [], stage := .idle }

def step (w : VaultWorld μ) : VaultLabel → Option (VaultWorld μ)
  | .rekeyBegin newPin newSalt => if w.stage.isIdle then w.rekeyBegin newPin newSalt else none
  | .rekey file => if w.stage.isIdle then w.rekey file else none
  | .rekeyCommit nonce => if w.stage.isIdle then w.rekeyCommit nonce else none
  | .rekeyAbort => if w.stage.isIdle then w.rekeyAbort else none
  | .recoverPendingRekey => if w.stage.isIdle then w.recoverPendingRekey else none
  | .tick nonce => w.tick nonce
  | .sqliteWrite path bytes => w.sqliteWrite path bytes
  | .sqliteEnd ok => w.sqliteEnd ok
  | .unlinkManifest =>
      match w.stage with
      | .removing => some { w with manifest := none }
      | _ => none
  | .unlinkBackup path =>
      match w.stage with
      | .removing => some { w with backups := Function.update w.backups path none }
      | _ => none
  | .login unlock pin now => w.login unlock pin now
  | .loginEnd i now => w.loginEnd i now
  | .crash => some w.crash

end VaultWorld

end Paranoia
