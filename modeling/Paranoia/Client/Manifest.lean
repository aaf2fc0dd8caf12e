import Mathlib.Algebra.Order.Ring.Int
import Mathlib.Data.List.Basic

/-!
# The manifest of profiles

One file has an entry for each profile and the profile that was last active. Reading it and writing
it are under a lock, but each by itself: what changes it loads it, changes what it has loaded, and
writes that. Logins, deletions and moves to another server change sessions and directories besides.
-/

namespace Paranoia

structure ManifestEntry where
  id : String
  fields : List (String × String)
deriving DecidableEq

def ManifestEntry.put (e : ManifestEntry) (key value : String) : ManifestEntry :=
  { e with fields := (key, value) :: e.fields.filter (·.1 ≠ key) }

def ManifestEntry.putAll (e : ManifestEntry) (fields : List (String × String)) : ManifestEntry :=
  fields.foldl (fun e f => e.put f.1 f.2) e

structure Manifest where
  profiles : List ManifestEntry
  lastProfileId : String
deriving DecidableEq

/-- In place of the entry with its id, or at the end. -/
def putEntry (e : ManifestEntry) : List ManifestEntry → List ManifestEntry
  | [] => [e]
  | p :: profiles => if p.id = e.id then e :: profiles else p :: putEntry e profiles

namespace Manifest

def entry (m : Manifest) (id : String) : Option ManifestEntry := m.profiles.find? (·.id = id)

def field (m : Manifest) (id key : String) : Option String :=
  (m.entry id).bind (fun e => e.fields.lookup key)

/-- The server is normalised. -/
def upsertProfileManifest (m : Manifest) (profileId server username now : String)
    (makeLast : Bool) : Manifest :=
  let e := (m.entry profileId).getD ⟨profileId, []⟩
  { profiles := putEntry (e.putAll [("server", server), ("username", username),
      ("updated_at", now)]) m.profiles
    lastProfileId := if makeLast then profileId else m.lastProfileId }

/-- Without an entry nothing is written. -/
def updateProfileManifestEntry (m : Manifest) (profileId : String)
    (fields : List (String × String)) (now : String) : Option Manifest :=
  (m.entry profileId).map fun e =>
    { m with profiles := putEntry (e.putAll (fields ++ [("updated_at", now)])) m.profiles }

/-- What `deleteProfile` leaves. -/
def deleteProfile (m : Manifest) (profileId : String) : Manifest :=
  let kept := m.profiles.filter (·.id ≠ profileId)
  { profiles := kept
    lastProfileId := if m.lastProfileId = profileId then (kept.head?.map ManifestEntry.id).getD ""
      else m.lastProfileId }

/-- What `changeProfileServer` leaves of the old profile. -/
def dropMoved (m : Manifest) (profileId : String) : Manifest :=
  { profiles := m.profiles.filter (·.id ≠ profileId)
    lastProfileId := if m.lastProfileId = profileId then "" else m.lastProfileId }

end Manifest

inductive ManifestUpdate where
  | upsert (id server username now : String) (makeLast : Bool)
  | update (id : String) (fields : List (String × String)) (now : String)
  | delete (id : String)
  | move (id : String)
deriving DecidableEq

def ManifestUpdate.apply (m : Manifest) : ManifestUpdate → Option Manifest
  | .upsert id server username now makeLast =>
      some (m.upsertProfileManifest id server username now makeLast)
  | .update id fields now => m.updateProfileManifestEntry id fields now
  | .delete id => some (m.deleteProfile id)
  | .move id => some (m.dropMoved id)

/-! ## Who changes it -/

/-- What the threads of the client do, one thing at a time. -/
inductive ProfileInstr where
  | load
  | write (u : ManifestUpdate)
  | addSession (id : String)
  | removeSession (id : String)
  | makeDir (id : String)
  | removeDir (id : String)
  | renameDir (old new : String)
deriving DecidableEq

inductive ProfileOp where
  /-- `opened`: whether the handle of the session can be made. -/
  | login (id server username now : String) (opened : Bool)
  | upsert (id server username now : String) (makeLast : Bool)
  | update (id : String) (fields : List (String × String)) (now : String)
  | delete (id : String)
  /-- `renamed`: whether the directory can be moved; `carry`: the local name and the avatar. -/
  | changeServer (old new oldServer newServer username now : String) (wasActive renamed opened : Bool)
      (carry : List (String × String))
deriving DecidableEq

namespace ProfileOp

def change (u : ManifestUpdate) : List ProfileInstr := [.load, .write u]

def loginProgram (id server username now : String) (opened : Bool) : List ProfileInstr :=
  .makeDir id :: if opened then
    [.addSession id, .makeDir id] ++ change (.upsert id server username now true) else []

def program : ProfileOp → List ProfileInstr
  | login id server username now opened => loginProgram id server username now opened
  | upsert id server username now makeLast =>
      .makeDir id :: change (.upsert id server username now makeLast)
  | update id fields now => change (.update id fields now)
  | delete id => .removeSession id :: change (.delete id) ++ [.removeDir id]
  | changeServer old new oldServer newServer username now wasActive renamed opened carry =>
      .removeSession old :: if renamed then
        .renameDir old new :: change (.move old)
          ++ change (.upsert new newServer username now wasActive)
          ++ (if carry = [] then [] else change (.update new carry now))
          ++ .makeDir new :: loginProgram new newServer username now opened
      else loginProgram old oldServer username now opened

/-- The profiles that it adds. -/
def adds : ProfileOp → List String
  | login id _ _ _ _ => [id]
  | upsert id _ _ _ _ => [id]
  | update _ _ _ => []
  | delete _ => []
  | changeServer old new _ _ _ _ _ renamed _ _ => if renamed then [new] else [old]

/-- The profiles that it takes away. -/
def drops : ProfileOp → List String
  | delete id => [id]
  | changeServer old _ _ _ _ _ _ renamed _ _ => if renamed then [old] else []
  | _ => []

end ProfileOp

structure ProfileTask where
  rest : List ProfileInstr
  loaded : Manifest
deriving DecidableEq

structure ProfileWorld where
  manifest : Manifest
  sessions : List String
  dirs : List String
  tasks : List ProfileTask
  /-- What has been written, in order. -/
  log : List ManifestUpdate
  /-- The profiles that were deleted and not added again. -/
  deleted : List String
  /-- The profiles that have been written to the manifest and not taken away since. -/
  kept : List String
deriving DecidableEq

inductive ProfileLabel where
  | request (op : ProfileOp)
  | run (i : Nat)
deriving DecidableEq

namespace ProfileWorld

def init (manifest : Manifest) (sessions dirs : List String) : ProfileWorld :=
  ⟨manifest, sessions, dirs, [], [], [], manifest.profiles.map ManifestEntry.id⟩

/-- A profile is moved only to where there is none. -/
def refused (w : ProfileWorld) : ProfileOp → Bool
  | .changeServer old new _ _ _ _ _ _ _ _ =>
      old = new ∨ old ∉ w.sessions ∨ w.manifest.entry new ≠ none ∨ new ∈ w.dirs
  | _ => false

def request (w : ProfileWorld) (op : ProfileOp) : ProfileWorld :=
  { w with
    tasks := w.tasks ++ [⟨op.program, ⟨[], ""⟩⟩]
    deleted := (match op with
      | .delete id => id :: w.deleted
      | _ => w.deleted).filter (· ∉ op.adds)
    kept := w.kept.filter (· ∉ op.drops) }

/-- Somebody writes what was made of what they have loaded. -/
def write (w : ProfileWorld) (u : ManifestUpdate) (loaded : Manifest) : ProfileWorld :=
  match u.apply loaded with
  | none => w
  | some manifest =>
      { w with
        manifest := manifest
        log := w.log ++ [u]
        kept := match u with
          | .upsert id _ _ _ _ => id :: w.kept
          | _ => w.kept }

def instr (w : ProfileWorld) (loaded : Manifest) : ProfileInstr → Option ProfileWorld
  | .load => some w
  | .write u => some (w.write u loaded)
  | .addSession id => some { w with sessions := w.sessions.filter (· ≠ id) ++ [id] }
  | .removeSession id => some { w with sessions := w.sessions.filter (· ≠ id) }
  | .makeDir id => some { w with dirs := if id ∈ w.dirs then w.dirs else w.dirs ++ [id] }
  | .removeDir id => some { w with dirs := w.dirs.filter (· ≠ id) }
  | .renameDir old new =>
      if old ∈ w.dirs ∧ new ∉ w.dirs then
        some { w with dirs := w.dirs.filter (· ≠ old) ++ [new] }
      else none

def stepTask (w : ProfileWorld) (i : Nat) (t : ProfileTask) : Option ProfileWorld :=
  match t.rest with
  | [] => none
  | ins :: rest =>
      let loaded := if ins = .load then w.manifest else t.loaded
      (w.instr t.loaded ins).map fun w => { w with tasks := w.tasks.set i ⟨rest, loaded⟩ }

def step (w : ProfileWorld) : ProfileLabel → Option ProfileWorld
  | .request op => if w.refused op then none else some (w.request op)
  | .run i => (w.tasks[i]?).bind (fun t => w.stepTask i t)

end ProfileWorld

end Paranoia
