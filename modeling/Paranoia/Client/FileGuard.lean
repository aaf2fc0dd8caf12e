import Mathlib.Algebra.Order.Ring.Int
import Mathlib.Data.List.Basic
import Mathlib.Logic.Function.Basic

/-!
# Reading and writing what the vault protects

`readAll` returns nothing for a file that does not decrypt, and raises a flag that makes `writeFile`
refuse from then on; of a locked vault it returns nothing as well, and raises no flag. What was read
goes into variables of the GUI thread and of workers, into sessions and into the cached manifest, and
from there into later writes. A value is kept here with the files whose failed read it depends on.
-/

namespace Paranoia

/-- A file, and the key it decrypts under. -/
structure StoredFile where
  key : Nat
  data : List UInt8
  deriving DecidableEq

structure FileValue where
  data : List UInt8
  /-- The files whose failed read the value was computed from. -/
  failed : List String
  deriving DecidableEq

inductive VarPhase
  /-- `readAll` has got nothing from the vault, and will raise the flag before it returns. -/
  | unmarked
  | ready
  /-- `writeFile` has found the flag down, and will encrypt for this file. -/
  | checked (path : String)
  deriving DecidableEq

/-- What a thread, a session or a call under way has. -/
structure FileVar where
  value : FileValue
  phase : VarPhase
  deriving DecidableEq

structure FileWorld where
  disk : String → Option StoredFile
  masterKey : Option Nat
  vaultIoFailed : Bool
  manifestCache : Option FileValue
  vars : List FileVar
  /-- The files that were replaced with content computed from a failed read of them. -/
  lost : List String

inductive FileLabel
  | readAll (path : String)
  | markVaultIoFailure (i : Nat)
  /-- A value that depends on what two variables have. -/
  | compute (i j : Nat) (data : List UInt8)
  /-- A value that depends on no file. -/
  | fresh (data : List UInt8)
  | drop (i : Nat)
  /-- The check of `writeFile`. -/
  | writeFile (i : Nat) (path : String)
  | vaultEncryptJson (i : Nat)
  /-- What was read or written becomes the cached manifest. -/
  | cacheManifest (i : Nat)
  | loadCachedManifest
  | invalidateProfilesManifestCache
  | resetVaultIoFailure
  | vaultLock
  | vaultUnlock (key : Nat)
  /-- A PIN change puts a file under the new key. -/
  | rekeyFile (path : String) (key : Nat)
  | rekeyCommit (key : Nat)
  | remove (path : String)
  deriving DecidableEq

namespace FileWorld

def init (disk : String → Option StoredFile) : FileWorld where
  disk := disk
  masterKey := none
  vaultIoFailed := false
  manifestCache := none
  vars := []
  lost := []

def push (w : FileWorld) (x : FileVar) : FileWorld := { w with vars := w.vars ++ [x] }

def setVar (w : FileWorld) (i : Nat) (x : FileVar) : FileWorld := { w with vars := w.vars.set i x }

def readAll (w : FileWorld) (path : String) : FileVar :=
  match w.disk path with
  | none => ⟨⟨[], []⟩, .ready⟩
  | some file =>
      match w.masterKey with
      | none => ⟨⟨[], [path]⟩, .ready⟩ -- `vault_locked`
      | some key =>
          if file.key = key then
            -- an empty text cannot be told from a failure
            ⟨⟨file.data, []⟩, if file.data = [] then .unmarked else .ready⟩
          else ⟨⟨[], [path]⟩, .unmarked⟩

def vaultEncryptJson (w : FileWorld) (value : FileValue) (path : String) : FileWorld :=
  match w.masterKey with
  | none => w
  | some key =>
      { w with
        disk := Function.update w.disk path (some ⟨key, value.data⟩)
        lost := if path ∈ value.failed ∧ (w.disk path).isSome then path :: w.lost else w.lost }

/-- A file that decrypts. -/
def rekeyFile (w : FileWorld) (old : Nat) (path : String) (new : Nat) : FileWorld :=
  match w.disk path with
  | some file =>
      if file.key = old then
        { w with disk := Function.update w.disk path (some { file with key := new }) }
      else w
  | none => w

def step (w : FileWorld) : FileLabel → Option FileWorld
  | .readAll path => some (w.push (w.readAll path))
  | .markVaultIoFailure i =>
      match w.vars[i]? with
      | some ⟨value, .unmarked⟩ => some { w.setVar i ⟨value, .ready⟩ with vaultIoFailed := true }
      | _ => none
  | .compute i j data =>
      match w.vars[i]?, w.vars[j]? with
      | some ⟨a, .ready⟩, some ⟨b, .ready⟩ => some (w.push ⟨⟨data, a.failed ++ b.failed⟩, .ready⟩)
      | _, _ => none
  | .fresh data => some (w.push ⟨⟨data, []⟩, .ready⟩)
  | .drop i => some { w with vars := w.vars.eraseIdx i }
  | .writeFile i path =>
      match w.vars[i]? with
      | some ⟨value, .ready⟩ =>
          if w.vaultIoFailed then some w else some (w.push ⟨value, .checked path⟩)
      | _ => none
  | .vaultEncryptJson i =>
      match w.vars[i]? with
      | some ⟨value, .checked path⟩ =>
          some ({ w with vars := w.vars.eraseIdx i }.vaultEncryptJson value path)
      | _ => none
  | .cacheManifest i =>
      match w.vars[i]? with
      | some ⟨value, .ready⟩ => some { w with manifestCache := some value }
      | _ => none
  | .loadCachedManifest => w.manifestCache.map (fun value => w.push ⟨value, .ready⟩)
  | .invalidateProfilesManifestCache => some { w with manifestCache := none }
  | .resetVaultIoFailure => some { w with vaultIoFailed := false }
  | .vaultLock => some { w with masterKey := none }
  | .vaultUnlock key => some { w with masterKey := some key }
  | .rekeyFile path key => w.masterKey.map (fun old => w.rekeyFile old path key)
  | .rekeyCommit key => w.masterKey.map (fun _ => { w with masterKey := some key })
  | .remove path => some { w with disk := Function.update w.disk path none }

end FileWorld

end Paranoia
