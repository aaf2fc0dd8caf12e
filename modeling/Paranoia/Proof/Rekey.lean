import Paranoia.Client.Vault
import Paranoia.Lib.Lts

/-!
# A change of keys is whole

The write of `vault.json` decides. Before it, every path that has changed is in the manifest with
what it held, so aborting or recovering brings all of it back; after it, every protected file reads
under the new keys as it did under the old ones (`VaultWorld.atomic`). This needs four things of
those who call. No file is rekeyed once it has changed, since its copy would be overwritten by what
the first call wrote (`original_lost`). The commit comes when all protected files have been
rewritten. A login saves what it read only while `vault.json` still has the same salt. And no file
is left behind that SQLite made beside a database: only companions that were there are in the
manifest.
-/

namespace Paranoia

open VaultCrypto

section Whole

variable {μ : Type} [VaultCrypto μ]

/-- The files that the vault protects, none of which is a companion of another. -/
structure Protected where
  files : List VaultFile
  apart : ∀ f ∈ files, ∀ g ∈ files, g ≠ f → ∀ q ∈ g.footprint, q ∉ f.footprint

namespace VaultFile

/-- Working on the file reaches no protected file but itself. -/
def Apart (ps : Protected) (f : VaultFile) : Prop :=
  ∀ g ∈ ps.files, g ≠ f → ∀ q ∈ g.footprint, q ∉ f.footprint

/-- A file reads as it did if nothing it is read from has changed. -/
theorem read_congr {f : VaultFile} {files files' : FilePath → Option (List UInt8)} (m : μ)
    (h : ∀ q ∈ f.footprint, files q = files' q) : f.read m files = f.read m files' := by
  cases f with
  | json path =>
      rw [read, read, h path List.mem_cons_self]
  | attachment salt path =>
      rw [read, read, h path List.mem_cons_self]
  | db path =>
      have hmain := h path List.mem_cons_self
      have hwal := h (walOf path) (List.mem_cons_of_mem _ List.mem_cons_self)
      have hshm := h (shmOf path) (List.mem_cons_of_mem _ (List.mem_cons_of_mem _ List.mem_cons_self))
      rw [read, read, hmain, hwal, hshm]

theorem read_update_of_notMem {f : VaultFile} {files : FilePath → Option (List UInt8)} (m : μ)
    {q : FilePath} {bytes : Option (List UInt8)} (h : q ∉ f.footprint) :
    f.read m (Function.update files q bytes) = f.read m files := by
  refine read_congr m fun q' hq' => Function.update_of_ne ?_ _ _
  rintro rfl
  exact h hq'

theorem toStage_subset {f : VaultFile} {q : FilePath × Bool} (h : q ∈ f.toStage) :
    q.1 ∈ f.footprint := by
  cases f <;> simp only [toStage, footprint, List.mem_cons, List.not_mem_nil, or_false] at h ⊢
  case db path =>
    rcases h with rfl | rfl | rfl
    · exact .inl rfl
    · exact .inr (.inl rfl)
    · exact .inr (.inr rfl)
  all_goals rw [h]

theorem footprint_subset_toStage {f : VaultFile} {q : FilePath} (h : q ∈ f.footprint) :
    ∃ ifThere, (q, ifThere) ∈ f.toStage := by
  cases f <;> simp only [toStage, footprint, List.mem_cons, List.not_mem_nil, or_false] at h ⊢
  case db path =>
    rcases h with rfl | rfl | rfl
    · exact ⟨false, .inl rfl⟩
    · exact ⟨true, .inr (.inl rfl)⟩
    · exact ⟨true, .inr (.inr rfl)⟩
  all_goals exact ⟨false, by rw [h]⟩

end VaultFile

namespace VaultState

/-- The master is the one that opens the verifier, and comes from the salt. -/
structure Keyed (v : VaultState) (m : μ) : Prop where
  derived : ∃ pin, m = deriveMaster pin v.salt
  verifier : ∃ nonce, v.verifier = sealBytes (.json m) nonce verifierPlaintext

/-- A login changes nothing else. -/
def SameLock (v v' : VaultState) : Prop := v.salt = v'.salt ∧ v.verifier = v'.verifier

theorem SameLock.trans {v v' v'' : VaultState} (h : v.SameLock v') (h' : v'.SameLock v'') :
    v.SameLock v'' :=
  ⟨h.1.trans h'.1, h.2.trans h'.2⟩

theorem SameLock.keyed {v v' : VaultState} {m : μ} (h : v.SameLock v') (hk : v'.Keyed m) :
    v.Keyed m where
  derived := by
    rw [h.1]
    exact hk.derived
  verifier := by
    rw [h.2]
    exact hk.verifier

/-- Only the PIN of the vault passes. -/
theorem Keyed.verifyPin {v : VaultState} {m m' : μ} {pin : String} (hk : v.Keyed m)
    (h : v.verifyPin pin = some m') : m' = m := by
  obtain ⟨nonce, hnonce⟩ := hk.verifier
  simp only [VaultState.verifyPin, hnonce] at h
  split at h
  · rename_i hopen
    cases h
    have hkey := key_of_open _ _ _ _ _ hopen
    injection hkey
  · exact absurd h (by simp)

/-- A vault has one master. -/
theorem Keyed.unique {v : VaultState} {m m' : μ} (hk : v.Keyed m) (hk' : v.Keyed m') : m' = m := by
  obtain ⟨nonce, hnonce⟩ := hk.verifier
  obtain ⟨nonce', hnonce'⟩ := hk'.verifier
  have hopen := open_sealBytes (.json m') nonce' verifierPlaintext
  rw [← hnonce', hnonce] at hopen
  have hkey := key_of_open _ _ _ _ _ hopen
  injection hkey

end VaultState

namespace RekeyManifest

variable {m : RekeyManifest} {path q : FilePath} {e : RekeyEntry}

theorem mem_enlistAbsent (h : e ∈ (m.enlistAbsent path).entries) :
    e ∈ m.entries ∨ e = ⟨path, false⟩ := by
  unfold enlistAbsent at h
  split at h
  · exact .inl h
  · simpa using h

theorem enlists_enlistAbsent : (m.enlistAbsent path).Enlists q ↔ q = path ∨ m.Enlists q := by
  unfold enlistAbsent
  split
  · rename_i h
    constructor
    · exact .inr
    · rintro (rfl | h')
      · exact h
      · exact h'
  · simp only [Enlists, List.mem_append, List.mem_singleton]
    constructor
    · rintro ⟨e, he | rfl, rfl⟩
      · exact .inr ⟨e, he, rfl⟩
      · exact .inl rfl
    · rintro (rfl | ⟨e, he, rfl⟩)
      · exact ⟨_, .inr rfl, rfl⟩
      · exact ⟨e, .inl he, rfl⟩

theorem mem_enlistCopied (h : e ∈ (m.enlistCopied path).entries) :
    e ∈ m.entries ∨ e = ⟨path, true⟩ := by
  unfold enlistCopied at h
  split at h
  · obtain ⟨e', he', rfl⟩ := List.mem_map.mp h
    split
    · exact .inr rfl
    · exact .inl he'
  · simpa using h

theorem enlists_enlistCopied : (m.enlistCopied path).Enlists q ↔ q = path ∨ m.Enlists q := by
  unfold enlistCopied
  split
  · rename_i h
    simp only [Enlists, List.mem_map]
    constructor
    · rintro ⟨_, ⟨e, he, rfl⟩, rfl⟩
      split
      · exact .inl rfl
      · exact .inr ⟨e, he, rfl⟩
    · rintro (rfl | ⟨e, he, rfl⟩)
      · obtain ⟨e, he, horig⟩ := h
        exact ⟨_, ⟨e, he, rfl⟩, by rw [if_pos horig]⟩
      · refine ⟨_, ⟨e, he, rfl⟩, ?_⟩
        split
        · rename_i horig
          exact horig.symm
        · rfl
  · simp only [Enlists, List.mem_append, List.mem_singleton]
    constructor
    · rintro ⟨e, he | rfl, rfl⟩
      · exact .inr ⟨e, he, rfl⟩
      · exact .inl rfl
    · rintro (rfl | ⟨e, he, rfl⟩)
      · exact ⟨_, .inr rfl, rfl⟩
      · exact ⟨e, .inl he, rfl⟩

@[simp]
theorem newSalt_enlistAbsent : (m.enlistAbsent path).newSalt = m.newSalt := by
  unfold enlistAbsent
  split <;> rfl

@[simp]
theorem newSalt_enlistCopied : (m.enlistCopied path).newSalt = m.newSalt := by
  unfold enlistCopied
  split <;> rfl

end RekeyManifest

namespace VaultWorld

variable {ps : Protected} {w w' : VaultWorld μ} {p : PendingVault μ}

/-! ## What is asked of those who call -/

/-- The call goes on to rewrite the file. -/
def Opens (w : VaultWorld μ) (f : VaultFile) : Prop :=
  (∃ path, f = .db path ∧ w.files path = none) ∨ ∃ m, w.active = some m ∧ (f.read m w.files).isSome

/-- Every file that is there was there when the rekey began or is in the manifest. -/
def NoStray (w : VaultWorld μ) (p : PendingVault μ) : Prop :=
  ∀ q, w.files q ≠ none → w.orig q ≠ none ∨ p.manifest.Enlists q

/-- The rekey under way can still be undone. -/
def Uncommitted (w : VaultWorld μ) : Prop :=
  match w.stage with
  | .install => False
  | _ => True

/-- Files that a rekey works on are as it found them, and reach no protected file but the one that
is meant, unless the call does not get to rewriting; all protected files have been rewritten when
it commits; nothing made beside them is there when it is broken off; and `vault.json` is saved
under the salt it has. -/
def Allowed (ps : Protected) (w : VaultWorld μ) : VaultLabel → Prop
  | .rekey f => (∀ q ∈ f.footprint, w.files q = w.orig q) ∧ (w.Opens f → f.Apart ps)
  | .rekeyCommit _ => ∀ f ∈ ps.files, f ∈ w.rekeyed
  | .loginEnd i _ => ∀ l ∈ w.logins[i]?, l.state.SameLock w.vault
  | .rekeyAbort => ∀ p ∈ w.pending, w.NoStray p
  | .crash => w.Uncommitted → ∀ p ∈ w.pending, w.NoStray p
  | _ => True

/-! ## What the disk holds -/

/-- Undoing the entry leaves the path as it was. -/
def Undone (w : VaultWorld μ) (e : RekeyEntry) : Prop :=
  if e.backup then
    (∀ bytes, w.backups e.orig = some bytes → w.orig e.orig = some bytes) ∧
      (w.backups e.orig = none → w.files e.orig = w.orig e.orig)
  else w.orig e.orig = none

/-- The old `vault.json`, and whatever has changed can be brought back. -/
structure OldDisk (w : VaultWorld μ) : Prop where
  vault : w.vault.SameLock w.oldVault
  files : w.manifest = none → w.files = w.orig
  salt : ∀ m, w.manifest = some m → m.newSalt ≠ w.vault.salt
  undone : ∀ m, w.manifest = some m → ∀ e ∈ m.entries, w.Undone e
  unlisted : ∀ m, w.manifest = some m → ∀ q, ¬ m.Enlists q → w.files q = w.orig q

/-- The new `vault.json`, and all protected files under its keys. -/
structure NewDisk (ps : Protected) (w : VaultWorld μ) : Prop where
  keyed : w.vault.Keyed w.newMaster
  fresh : w.vault.salt ≠ w.oldVault.salt
  salt : ∀ m, w.manifest = some m → m.newSalt = w.vault.salt
  read : ∀ f ∈ ps.files, f.read w.newMaster w.files = f.read w.oldMaster w.orig

/-- A rekey under way. -/
structure Running (ps : Protected) (w : VaultWorld μ) (p : PendingVault μ) : Prop where
  staging : w.staging = true
  vault : w.vault.SameLock w.oldVault
  active : w.active = some w.oldMaster
  manifest : w.manifest = some p.manifest
  salt : p.manifest.newSalt = p.newSalt
  fresh : p.newSalt ≠ w.vault.salt
  derived : ∃ pin, p.master = deriveMaster pin p.newSalt
  master : p.master = w.newMaster
  copies : ∀ e ∈ p.manifest.entries, e.backup = true →
    w.orig e.orig ≠ none ∧ w.backups e.orig = w.orig e.orig
  absent : ∀ e ∈ p.manifest.entries, e.backup = false → w.orig e.orig = none
  unlisted : ∀ q, ¬ p.manifest.Enlists q → w.files q = w.orig q ∨ w.orig q = none
  rekeyed : ∀ f ∈ w.rekeyed, f ∈ ps.files → f.read w.newMaster w.files = f.read w.oldMaster w.orig

/-- The file of the call is as it was, and all of it that was there is copied or still to be. -/
structure Calling (ps : Protected) (w : VaultWorld μ) (p : PendingVault μ) (f : VaultFile)
    (todo : List FilePath) : Prop where
  same : ∀ q ∈ f.footprint, w.files q = w.orig q
  apart : w.Opens f → f.Apart ps
  within : ∀ q ∈ todo, q ∈ f.footprint
  covered : ∀ q ∈ f.footprint, q ∈ todo ∨ p.manifest.Enlists q ∨ w.orig q = none
  notYet : f ∉ w.rekeyed

/-- SQLite is writing, to nothing that could not be brought back. -/
structure Writing (ps : Protected) (w : VaultWorld μ) (p : PendingVault μ) (db : FilePath)
    (plaintext : Option (List UInt8)) : Prop where
  apart : (VaultFile.db db).Apart ps
  covered : ∀ q ∈ (VaultFile.db db).footprint, p.manifest.Enlists q ∨ w.orig q = none
  notYet : .db db ∉ w.rekeyed
  plaintext : .db db ∈ ps.files → plaintext = (VaultFile.db db).read w.oldMaster w.orig

/-- The keys in memory are those of `vault.json`. -/
def Unlocked (w : VaultWorld μ) : Prop := ∀ m, w.active = some m → w.vault.Keyed m

/-- A rekey that is beginning. -/
structure Beginning (w : VaultWorld μ) (p : PendingVault μ) : Prop where
  staging : w.staging = true
  vault : w.vault.SameLock w.oldVault
  files : w.files = w.orig
  active : w.active = some w.oldMaster
  manifest : p.manifest = ⟨p.newSalt, []⟩
  fresh : p.newSalt ≠ w.vault.salt
  derived : ∃ pin, p.master = deriveMaster pin p.newSalt
  master : p.master = w.newMaster
  rekeyed : w.rekeyed = []

def Phase (ps : Protected) (w : VaultWorld μ) : Prop :=
  match w.stage, w.pending with
  | .idle, none =>
      (w.OldDisk ∨ w.NewDisk ps) ∧ w.Unlocked ∧ (w.staging = false → w.manifest = none)
  | .idle, some p => w.Running ps p
  | .beginManifest p, none => w.Beginning p ∧ w.manifest = none
  | .beginPending p, none => w.Beginning p ∧ w.manifest = some p.manifest
  | .staging f todo, some p => w.Running ps p ∧ w.Calling ps p f (todo.map Prod.fst)
  | .copied f q todo, some p =>
      w.Running ps p ∧ w.Calling ps p f (q :: todo.map Prod.fst) ∧
        w.backups q = w.orig q ∧ w.orig q ≠ none
  | .working f, some p => w.Running ps p ∧ w.Calling ps p f []
  | .sqlite db plaintext, some p => w.Running ps p ∧ w.Writing ps p db plaintext
  | .install, some p => w.NewDisk ps ∧ p.master = w.newMaster ∧ w.staging = true
  | .restoring es, none =>
      w.OldDisk ∧ w.Unlocked ∧ w.staging = true ∧ ∃ m, w.manifest = some m ∧
        (∀ e ∈ es, e ∈ m.entries) ∧ ∀ e ∈ m.entries, e ∈ es ∨ w.files e.orig = w.orig e.orig
  | .removing, none =>
      ((w.OldDisk ∧ w.files = w.orig) ∨ w.NewDisk ps) ∧ w.Unlocked ∧ w.staging = true
  | _, _ => False

structure Inv (ps : Protected) (w : VaultWorld μ) : Prop where
  old : w.oldVault.Keyed w.oldMaster
  readable : ∀ f ∈ ps.files, (f.read w.oldMaster w.orig).isSome
  phase : w.Phase ps

/-! ## Steps -/

omit [VaultCrypto μ] in
theorem stage_eq_idle (h : w.stage.isIdle) : w.stage = .idle := by
  cases hst : w.stage <;> rw [hst] at h <;> first | rfl | cases h

theorem Running.restorable (h : w.Running ps p) (hstray : w.NoStray p) : w.OldDisk where
  vault := h.vault
  files := by
    intro hm
    rw [h.manifest] at hm
    cases hm
  salt := by
    intro m hm
    rw [h.manifest] at hm
    cases hm
    rw [h.salt]
    exact h.fresh
  undone := by
    intro m hm e he
    rw [h.manifest] at hm
    cases hm
    unfold Undone
    split
    · rename_i hb
      obtain ⟨hne, hcopy⟩ := h.copies e he hb
      refine ⟨fun bytes hbytes => by rw [← hcopy, hbytes], fun hnone => ?_⟩
      exact absurd (hcopy ▸ hnone) hne
    · rename_i hb
      exact h.absent e he (by simpa using hb)
  unlisted := by
    intro m hm q hq
    rw [h.manifest] at hm
    cases hm
    rcases h.unlisted q hq with hsame | hnone
    · exact hsame
    · -- what was not there and is in no entry is not there now
      rw [hnone]
      by_contra hfile
      rcases hstray q hfile with horig | henlisted
      · exact horig hnone
      · exact hq henlisted

theorem Beginning.restorable (h : w.Beginning p)
    (hm : w.manifest = none ∨ w.manifest = some p.manifest) : w.OldDisk where
  vault := h.vault
  files := fun _ => h.files
  salt := by
    intro m hm'
    rcases hm with hm | hm <;> rw [hm] at hm' <;> cases hm'
    rw [h.manifest]
    exact h.fresh
  undone := by
    intro m hm' e he
    rcases hm with hm | hm <;> rw [hm] at hm' <;> cases hm'
    rw [h.manifest] at he
    cases he
  unlisted := by
    intro m _ q _
    rw [h.files]

theorem Beginning.running (h : w.Beginning p) (hm : w.manifest = some p.manifest) :
    w.Running ps p where
  staging := h.staging
  vault := h.vault
  active := h.active
  manifest := hm
  salt := by rw [h.manifest]
  fresh := h.fresh
  derived := h.derived
  master := h.master
  copies := by
    intro e he
    rw [h.manifest] at he
    cases he
  absent := by
    intro e he
    rw [h.manifest] at he
    cases he
  unlisted := by
    intro q _
    rw [h.files]
    exact .inl rfl
  rekeyed := by
    intro f hf
    rw [h.rekeyed] at hf
    cases hf

/-- A file that can be brought back, and no protected file that has been rewritten reads. -/
theorem Running.write (h : w.Running ps p) {q : FilePath} (bytes : Option (List UInt8))
    (hq : p.manifest.Enlists q ∨ w.orig q = none)
    (hfar : ∀ f ∈ w.rekeyed, f ∈ ps.files → q ∉ f.footprint) :
    Running ps { w with files := Function.update w.files q bytes } p where
  staging := h.staging
  vault := h.vault
  active := h.active
  manifest := h.manifest
  salt := h.salt
  fresh := h.fresh
  derived := h.derived
  master := h.master
  copies := h.copies
  absent := h.absent
  unlisted := by
    intro q' hq'
    by_cases heq : q' = q
    · cases heq
      exact .inr (hq.resolve_left hq')
    · have hsame : Function.update w.files q bytes q' = w.files q' := Function.update_of_ne heq _ _
      exact (h.unlisted q' hq').imp_left hsame.trans
  rekeyed := by
    intro f hf hps
    rw [VaultFile.read_update_of_notMem _ (hfar f hf hps)]
    exact h.rekeyed f hf hps

/-- A copy of what the path held when the rekey began. -/
theorem Running.copy (h : w.Running ps p) {q : FilePath} {bytes : List UInt8}
    (hq : w.orig q = some bytes) :
    Running ps { w with backups := Function.update w.backups q (some bytes) } p where
  staging := h.staging
  vault := h.vault
  active := h.active
  manifest := h.manifest
  salt := h.salt
  fresh := h.fresh
  derived := h.derived
  master := h.master
  copies := by
    intro e he hb
    obtain ⟨hne, hcopy⟩ := h.copies e he hb
    refine ⟨hne, ?_⟩
    by_cases heq : e.orig = q
    · dsimp only
      rw [heq, Function.update_self, hq]
    · dsimp only
      rw [Function.update_of_ne heq, hcopy]
  absent := h.absent
  unlisted := h.unlisted
  rekeyed := h.rekeyed

/-- An entry for a path that can be undone as it says. -/
theorem Running.enlist (h : w.Running ps p) {m : RekeyManifest} {e : RekeyEntry}
    (hsalt : m.newSalt = p.manifest.newSalt)
    (hmem : ∀ e' ∈ m.entries, e' ∈ p.manifest.entries ∨ e' = e)
    (hmono : ∀ q, p.manifest.Enlists q → m.Enlists q)
    (hcopy : e.backup = true → w.orig e.orig ≠ none ∧ w.backups e.orig = w.orig e.orig)
    (habsent : e.backup = false → w.orig e.orig = none) :
    Running ps (w.setManifest p m) { p with manifest := m } where
  staging := h.staging
  vault := h.vault
  active := h.active
  manifest := rfl
  salt := hsalt.trans h.salt
  fresh := h.fresh
  derived := h.derived
  master := h.master
  copies := by
    intro e' he' hb
    rcases hmem e' he' with hold | rfl
    · exact h.copies e' hold hb
    · exact hcopy hb
  absent := by
    intro e' he' hb
    rcases hmem e' he' with hold | rfl
    · exact h.absent e' hold hb
    · exact habsent hb
  unlisted := fun q hq => h.unlisted q fun hold => hq (hmono q hold)
  rekeyed := h.rekeyed

/-- The file is written with what it held, under the new keys. -/
theorem Running.rewrite (h : w.Running ps p) {f : VaultFile} {q : FilePath} (bytes : List UInt8)
    (hc : w.Calling ps p f []) (hfoot : f.footprint = [q]) (hopens : w.Opens f)
    (hread : f.read w.newMaster (Function.update w.files q (some bytes))
      = f.read w.oldMaster w.files) :
    Running ps { w with files := Function.update w.files q (some bytes)
                        rekeyed := f :: w.rekeyed } p := by
  have hq : q ∈ f.footprint := by
    rw [hfoot]
    exact List.mem_singleton_self q
  have hcovered : p.manifest.Enlists q ∨ w.orig q = none :=
    (hc.covered q hq).resolve_left List.not_mem_nil
  have hfar : ∀ g ∈ w.rekeyed, g ∈ ps.files → q ∉ g.footprint := by
    intro g hg hps hqg
    have hne : g ≠ f := by
      rintro rfl
      exact hc.notYet hg
    exact hc.apart hopens g hps hne q hqg hq
  have hwrite := h.write (some bytes) hcovered hfar
  refine { hwrite with rekeyed := ?_ }
  intro g hg hps
  rcases List.mem_cons.mp hg with rfl | hold
  · rw [hread, VaultFile.read_congr _ hc.same]
  · exact hwrite.rekeyed g hold hps

theorem phase_work {f : VaultFile} (h : w.Running ps p) (hp : w.pending = some p)
    (hc : w.Calling ps p f []) (nonce : List UInt8) :
    (w.work p w.oldMaster nonce f).Phase ps := by
  have hopens : ∀ m, f.read w.oldMaster w.files = some m → w.Opens f :=
    fun m hm => .inr ⟨w.oldMaster, h.active, by rw [hm]; rfl⟩
  cases f with
  | json path =>
      simp only [work]
      split
      · simp only [Phase, hp]
        exact { h with }
      · rename_i m hm
        simp only [Phase, hp]
        have hread := h.rewrite (encryptFile (.json p.master) nonce m) hc rfl (hopens m hm)
          (by rw [hm, VaultFile.read, Function.update_self, h.master]
              exact decryptFile_encryptFile _ _ _)
        exact { hread with }
  | attachment salt path =>
      simp only [work]
      split
      · simp only [Phase, hp]
        exact { h with }
      · rename_i m hm
        simp only [Phase, hp]
        have hread := h.rewrite (encryptFile (.attachment p.master salt) nonce m) hc rfl
          (hopens m hm)
          (by rw [hm, VaultFile.read, Function.update_self, h.master]
              exact decryptFile_encryptFile _ _ _)
        exact { hread with }
  | db path =>
      simp only [work]
      split
      · simp only [Phase, hp]
        exact { h with }
      · rename_i hnone
        simp only [Phase, hp]
        refine ⟨{ h with }, ?_, fun q hq => (hc.covered q hq).resolve_left List.not_mem_nil,
          hc.notYet, fun _ => VaultFile.read_congr _ hc.same⟩
        refine hc.apart ?_
        cases hfile : w.files path with
        | none => exact .inl ⟨path, rfl, hfile⟩
        | some bytes =>
            cases hread : VaultFile.read w.oldMaster w.files (.db path) with
            | none => exact absurd hread (hnone bytes hfile)
            | some m => exact hopens m hread

/-- One path copied, or entered as absent, or passed over. -/
theorem phase_stage {f : VaultFile} {q : FilePath} {ifThere : Bool}
    {todo : List (FilePath × Bool)} {nonce : List UInt8} (h : w.Running ps p)
    (hc : w.Calling ps p f (q :: todo.map Prod.fst))
    (hst : w.stage = .staging f ((q, ifThere) :: todo)) (hp : w.pending = some p)
    (hs : w.tick nonce = some w') : w'.Phase ps := by
  have hq : q ∈ f.footprint := hc.within q List.mem_cons_self
  have hrest : ∀ q' ∈ todo.map Prod.fst, q' ∈ f.footprint :=
    fun q' hq' => hc.within q' (List.mem_cons_of_mem _ hq')
  simp only [tick, hst, hp] at hs
  split at hs
  · rename_i bytes hbytes
    cases hs
    have horig : w.orig q = some bytes := by rw [← hc.same q hq, hbytes]
    simp only [Phase]
    refine ⟨{ h.copy horig with }, { hc with }, ?_, ?_⟩
    · rw [Function.update_self, horig]
    · rw [horig]
      exact Option.some_ne_none bytes
  · rename_i hnone
    have horig : w.orig q = none := by rw [← hc.same q hq, hnone]
    split at hs
    · cases hs
      simp only [Phase]
      refine ⟨{ h with }, hc.same, hc.apart, hrest, ?_, hc.notYet⟩
      intro q' hq'
      rcases hc.covered q' hq' with htodo | hdone
      · rcases List.mem_cons.mp htodo with rfl | htodo
        · exact .inr (.inr horig)
        · exact .inl htodo
      · exact .inr hdone
    · cases hs
      simp only [Phase, setManifest]
      have henlisted := h.enlist (m := p.manifest.enlistAbsent q) (e := ⟨q, false⟩)
        RekeyManifest.newSalt_enlistAbsent (fun e' => RekeyManifest.mem_enlistAbsent)
        (fun q' hq' => RekeyManifest.enlists_enlistAbsent.mpr (.inr hq')) (fun hb => by cases hb)
        (fun _ => horig)
      refine ⟨{ henlisted with }, hc.same, hc.apart, hrest, ?_, hc.notYet⟩
      intro q' hq'
      rcases hc.covered q' hq' with htodo | hdone | hnone
      · rcases List.mem_cons.mp htodo with rfl | htodo
        · exact .inr (.inr horig)
        · exact .inl htodo
      · exact .inr (.inl (RekeyManifest.enlists_enlistAbsent.mpr (.inr hdone)))
      · exact .inr (.inr hnone)

theorem phase_copied {f : VaultFile} {q : FilePath} {todo : List (FilePath × Bool)}
    (h : w.Running ps p) (hc : w.Calling ps p f (q :: todo.map Prod.fst))
    (hcopy : w.backups q = w.orig q) (hne : w.orig q ≠ none) :
    Phase ps { w.setManifest p (p.manifest.enlistCopied q) with stage := .staging f todo } := by
  have henlisted := h.enlist (m := p.manifest.enlistCopied q) (e := ⟨q, true⟩)
    RekeyManifest.newSalt_enlistCopied (fun e' => RekeyManifest.mem_enlistCopied)
    (fun q' hq' => RekeyManifest.enlists_enlistCopied.mpr (.inr hq')) (fun _ => ⟨hne, hcopy⟩)
    (fun hb => by cases hb)
  simp only [Phase, setManifest]
  refine ⟨{ henlisted with }, hc.same, hc.apart,
    fun q' hq' => hc.within q' (List.mem_cons_of_mem _ hq'), ?_, hc.notYet⟩
  intro q' hq'
  rcases hc.covered q' hq' with htodo | hdone | hnone
  · rcases List.mem_cons.mp htodo with rfl | htodo
    · exact .inr (.inl (RekeyManifest.enlists_enlistCopied.mpr (.inl rfl)))
    · exact .inl htodo
  · exact .inr (.inl (RekeyManifest.enlists_enlistCopied.mpr (.inr hdone)))
  · exact .inr (.inr hnone)

omit [VaultCrypto μ] in
/-- A path of the manifest is brought back, whether its copy is used up or not. -/
theorem OldDisk.bringBack {m : RekeyManifest} {path : FilePath}
    {backups : FilePath → Option (List UInt8)} (h : w.OldDisk) (hm : w.manifest = some m)
    (hpath : m.Enlists path)
    (hb : ∀ q, backups q = w.backups q ∨ (q = path ∧ backups q = none)) :
    OldDisk { w with files := Function.update w.files path (w.orig path), backups } where
  vault := h.vault
  files := by
    intro hnone
    rw [hm] at hnone
    cases hnone
  salt := h.salt
  undone := by
    intro m' hm' e he
    have hundone := h.undone m' hm' e he
    unfold Undone at hundone ⊢
    dsimp only
    split
    · rename_i hbackup
      rw [if_pos hbackup] at hundone
      rcases hb e.orig with hsame | ⟨heq, hnone⟩
      · refine ⟨fun bytes hbytes => hundone.1 bytes (hsame ▸ hbytes), fun hgone => ?_⟩
        by_cases heq : e.orig = path
        · rw [heq, Function.update_self]
        · rw [Function.update_of_ne heq]
          exact hundone.2 (hsame ▸ hgone)
      · refine ⟨fun bytes hbytes => ?_, fun _ => by rw [heq, Function.update_self]⟩
        rw [hnone] at hbytes
        cases hbytes
    · rename_i hbackup
      rwa [if_neg hbackup] at hundone
  unlisted := by
    intro m' hm' q hq
    rw [hm] at hm'
    cases hm'
    have hne : q ≠ path := by
      rintro rfl
      exact hq hpath
    have hkept : Function.update w.files path (w.orig path) q = w.files q :=
      Function.update_of_ne hne _ _
    exact hkept.trans (h.unlisted m hm q hq)

omit [VaultCrypto μ] in
/-- What undoing an entry comes to. -/
theorem restoreEntry_eq {m : RekeyManifest} {e : RekeyEntry} (h : w.OldDisk)
    (hm : w.manifest = some m) (he : e ∈ m.entries) :
    ∃ backups, (∀ q, backups q = w.backups q ∨ (q = e.orig ∧ backups q = none)) ∧
      w.restoreEntry e =
        { w with files := Function.update w.files e.orig (w.orig e.orig), backups } := by
  have hundone := h.undone m hm e he
  unfold Undone at hundone
  unfold restoreEntry
  split
  · rename_i hb
    rw [if_pos hb] at hundone
    cases hbytes : w.backups e.orig with
    | none =>
        refine ⟨w.backups, fun q => .inl rfl, ?_⟩
        dsimp only
        rw [← hundone.2 hbytes, Function.update_eq_self]
    | some bytes =>
        refine ⟨Function.update w.backups e.orig none, fun q => ?_, ?_⟩
        · by_cases hq : q = e.orig
          · rw [hq, Function.update_self]
            exact .inr ⟨rfl, rfl⟩
          · exact .inl (Function.update_of_ne hq _ _)
        · dsimp only
          rw [hundone.1 bytes hbytes]
  · rename_i hb
    rw [if_neg hb] at hundone
    exact ⟨w.backups, fun q => .inl rfl, by rw [hundone]⟩

theorem phase_restore {m : RekeyManifest} {e : RekeyEntry} {es : List RekeyEntry} (h : w.OldDisk)
    (hunlocked : w.Unlocked) (hstaging : w.staging = true) (hm : w.manifest = some m)
    (hp : w.pending = none) (hsub : ∀ e' ∈ e :: es, e' ∈ m.entries)
    (hdone : ∀ e' ∈ m.entries, e' ∈ e :: es ∨ w.files e'.orig = w.orig e'.orig) :
    Phase ps { w.restoreEntry e with stage := .restoring es } := by
  have he : e ∈ m.entries := hsub e List.mem_cons_self
  obtain ⟨backups, hbackups, heq⟩ := restoreEntry_eq h hm he
  have hback := h.bringBack hm ⟨e, he, rfl⟩ hbackups
  rw [heq]
  simp only [Phase, hp]
  refine ⟨{ hback with }, hunlocked, hstaging, m, hm,
    fun e' he' => hsub e' (List.mem_cons_of_mem _ he'), ?_⟩
  intro e' he'
  by_cases hsame : e'.orig = e.orig
  · rw [hsame, Function.update_self]
    exact .inr rfl
  · rw [Function.update_of_ne hsame]
    rcases hdone e' he' with htodo | hdone
    · rcases List.mem_cons.mp htodo with rfl | htodo
      · exact absurd rfl hsame
      · exact .inl htodo
    · exact .inr hdone

omit [VaultCrypto μ] in
/-- With every entry undone, all is as it was. -/
theorem files_of_restored {m : RekeyManifest} (h : w.OldDisk) (hm : w.manifest = some m)
    (hdone : ∀ e ∈ m.entries, w.files e.orig = w.orig e.orig) : w.files = w.orig := by
  funext q
  by_cases hq : m.Enlists q
  · obtain ⟨e, he, rfl⟩ := hq
    exact hdone e he
  · exact h.unlisted m hm q hq

theorem phase_tick {nonce : List UInt8} (h : w.Phase ps) (hs : w.tick nonce = some w') :
    w'.Phase ps := by
  cases hst : w.stage <;> cases hp : w.pending <;>
    simp only [Phase, hst, hp] at h <;> try exact h.elim
  case idle.none => simp [tick, hst] at hs
  case idle.some => simp [tick, hst] at hs
  case beginManifest.none p =>
      simp only [tick, hst, Option.some.injEq] at hs
      subst hs
      simp only [Phase, hp]
      exact ⟨{ h.1 with }, trivial⟩
  case beginPending.none p =>
      simp only [tick, hst, Option.some.injEq] at hs
      subst hs
      simp only [Phase]
      have hrunning : w.Running ps p := h.1.running h.2
      exact { hrunning with }
  case staging.some f todo p =>
      cases todo with
      | nil =>
          simp only [tick, hst, Option.some.injEq] at hs
          subst hs
          simp only [Phase, hp]
          exact ⟨{ h.1 with }, { h.2 with }⟩
      | cons q todo => exact phase_stage h.1 h.2 hst hp hs
  case copied.some f q todo p =>
      simp only [tick, hst, hp, Option.some.injEq] at hs
      subst hs
      exact phase_copied h.1 h.2.1 h.2.2.1 h.2.2.2
  case working.some f p =>
      simp only [tick, hst, hp, h.1.active, Option.some.injEq] at hs
      subst hs
      exact phase_work h.1 hp h.2 nonce
  case sqlite.some => simp [tick, hst] at hs
  case install.some p =>
      simp only [tick, hst, hp, Option.some.injEq] at hs
      subst hs
      obtain ⟨hdisk, hmaster, hstaging⟩ := h
      simp only [Phase]
      refine ⟨.inr { hdisk with }, ?_, hstaging⟩
      rintro m hm
      cases hm
      rw [hmaster]
      exact hdisk.keyed
  case restoring.none es =>
      obtain ⟨hdisk, hunlocked, hstaging, m, hm, hsub, hdone⟩ := h
      cases es with
      | nil =>
          simp only [tick, hst, Option.some.injEq] at hs
          subst hs
          simp only [Phase, hp]
          have hall := files_of_restored hdisk hm
            fun e he => (hdone e he).resolve_left List.not_mem_nil
          exact ⟨.inl ⟨{ hdisk with }, hall⟩, hunlocked, hstaging⟩
      | cons e es =>
          simp only [tick, hst, Option.some.injEq] at hs
          subst hs
          exact phase_restore hdisk hunlocked hstaging hm hp hsub hdone
  case removing.none =>
      simp only [tick, hst, Option.some.injEq] at hs
      subst hs
      obtain ⟨hdisk, hunlocked, -⟩ := h
      simp only [Phase, hp]
      refine ⟨?_, hunlocked, fun _ => trivial⟩
      rcases hdisk with ⟨hdisk, hfiles⟩ | hdisk
      · refine .inl ⟨hdisk.vault, fun _ => hfiles, ?_, ?_, ?_⟩ <;>
          · intro m hm
            cases hm
      · refine .inr ⟨hdisk.keyed, hdisk.fresh, ?_, hdisk.read⟩
        intro m hm
        cases hm

/-- Logins come and go: `vault.json` keeps its lock, and whoever passes has the keys of it. -/
theorem phase_login {v : VaultState} {a : Option μ} {exhausted : Bool} {logins : List Login}
    (hold : w.oldVault.Keyed w.oldMaster) (h : w.Phase ps) (hv : v.SameLock w.vault)
    (ha : a = w.active ∨ ∃ m, a = some m ∧ ∀ k, w.vault.Keyed k → m = k) :
    Phase ps { w with vault := v, active := a, exhausted, logins } := by
  have holdDisk : w.OldDisk →
      OldDisk { w with vault := v, active := a, exhausted, logins } := by
    intro hd
    refine ⟨hv.trans hd.vault, hd.files, fun m hm => ?_, hd.undone, hd.unlisted⟩
    rw [hv.1]
    exact hd.salt m hm
  have hnewDisk : w.NewDisk ps →
      NewDisk ps { w with vault := v, active := a, exhausted, logins } := by
    intro hd
    refine ⟨hv.keyed hd.keyed, ?_, fun m hm => ?_, hd.read⟩
    · rw [hv.1]
      exact hd.fresh
    · rw [hv.1]
      exact hd.salt m hm
  have hactive : w.vault.SameLock w.oldVault → w.active = some w.oldMaster →
      a = some w.oldMaster := by
    intro hlock hsome
    rcases ha with rfl | ⟨m, rfl, hm⟩
    · exact hsome
    · rw [hm _ (hlock.keyed hold)]
  have hrunning : ∀ {p}, w.Running ps p →
      Running ps { w with vault := v, active := a, exhausted, logins } p := by
    intro p hr
    refine { hr with vault := hv.trans hr.vault, active := hactive hr.vault hr.active, fresh := ?_ }
    rw [hv.1]
    exact hr.fresh
  have hbeginning : ∀ {p}, w.Beginning p →
      Beginning { w with vault := v, active := a, exhausted, logins } p := by
    intro p hb
    refine { hb with vault := hv.trans hb.vault, active := hactive hb.vault hb.active, fresh := ?_ }
    rw [hv.1]
    exact hb.fresh
  have hunlocked : (∃ k, w.vault.Keyed k) → w.Unlocked →
      Unlocked { w with vault := v, active := a, exhausted, logins } := by
    rintro ⟨k, hk⟩ hu m hm
    rcases ha with rfl | ⟨m', rfl, hm'⟩
    · exact hv.keyed (hu m hm)
    · cases hm
      rw [hm' k hk]
      exact hv.keyed hk
  have hkeyed : (w.OldDisk ∨ w.NewDisk ps) → ∃ k, w.vault.Keyed k := by
    rintro (hd | hd)
    · exact ⟨_, hd.vault.keyed hold⟩
    · exact ⟨_, hd.keyed⟩
  -- a file opens for the same calls, since the keys of a running rekey stay
  have hcalling : ∀ {p f todo}, w.Running ps p → w.Calling ps p f todo →
      Calling ps { w with vault := v, active := a, exhausted, logins } p f todo := by
    intro p f todo hr hc
    refine { hc with apart := fun ho => hc.apart ?_ }
    rcases ho with ho | ⟨m, hm, hread⟩
    · exact .inl ho
    · refine .inr ⟨m, ?_, hread⟩
      rw [hr.active, ← hactive hr.vault hr.active, ← hm]
  cases hst : w.stage <;> cases hp : w.pending <;>
    simp only [Phase, hst, hp] at h ⊢ <;> try exact h.elim
  case idle.none =>
      refine ⟨?_, hunlocked (hkeyed h.1) h.2.1, h.2.2⟩
      exact h.1.imp (fun hd => { holdDisk hd with }) fun hd => { hnewDisk hd with }
  case idle.some => exact { hrunning h with }
  case beginManifest.none => exact ⟨{ hbeginning h.1 with }, h.2⟩
  case beginPending.none => exact ⟨{ hbeginning h.1 with }, h.2⟩
  case staging.some => exact ⟨{ hrunning h.1 with }, { hcalling h.1 h.2 with }⟩
  case copied.some => exact ⟨{ hrunning h.1 with }, { hcalling h.1 h.2.1 with }, h.2.2⟩
  case working.some => exact ⟨{ hrunning h.1 with }, { hcalling h.1 h.2 with }⟩
  case sqlite.some => exact ⟨{ hrunning h.1 with }, { h.2 with }⟩
  case install.some => exact ⟨{ hnewDisk h.1 with }, h.2⟩
  case restoring.none =>
      exact ⟨{ holdDisk h.1 with }, hunlocked (hkeyed (.inl h.1)) h.2.1, h.2.2⟩
  case removing.none =>
      obtain ⟨hdisk, hu, hstaging⟩ := h
      refine ⟨?_, hunlocked (hkeyed (hdisk.imp_left And.left)) hu, hstaging⟩
      exact hdisk.imp (fun hd => ⟨{ holdDisk hd.1 with }, hd.2⟩) fun hd => { hnewDisk hd with }

theorem phase_loginEnd {i now : Nat} (hold : w.oldVault.Keyed w.oldMaster) (h : w.Phase ps)
    (hok : w.Allowed ps (.loginEnd i now)) (hs : w.loginEnd i now = some w') : w'.Phase ps := by
  unfold loginEnd at hs
  split at hs
  · cases hs
  · rename_i l hl
    have hlock : l.state.SameLock w.vault := hok l (by rw [hl]; rfl)
    split at hs
    · rename_i master hpin
      cases hs
      refine phase_login hold h hlock ?_
      split
      · exact .inr ⟨master, rfl, fun k hk => (hlock.keyed hk).verifyPin hpin⟩
      · exact .inl rfl
    · cases hs
      refine phase_login hold h ?_ (.inl rfl)
      -- a wrong PIN counts, and leaves the lock
      split <;> exact hlock

/-- What a crash leaves. -/
theorem phase_crash (h : w.Phase ps) (hok : w.Allowed ps .crash) : w.crash.Phase ps := by
  suffices hdisk : (w.OldDisk ∨ w.NewDisk ps) ∧ (w.staging = false → w.manifest = none) by
    obtain ⟨hdisk, hstaging⟩ := hdisk
    simp only [Phase, crash]
    refine ⟨?_, fun m hm => (by cases hm), hstaging⟩
    rcases hdisk with hd | hd
    · exact .inl { hd with }
    · exact .inr { hd with }
  have hrunning : ∀ {p}, w.Running ps p → w.pending = some p → w.Uncommitted →
      (w.OldDisk ∨ w.NewDisk ps) ∧ (w.staging = false → w.manifest = none) := by
    intro p hr hp hun
    refine ⟨.inl (hr.restorable (hok hun p (by rw [hp]; rfl))), fun hstaging => ?_⟩
    rw [hr.staging] at hstaging
    cases hstaging
  have hthere : w.staging = true → w.staging = false → w.manifest = none := by
    intro htrue hfalse
    rw [htrue] at hfalse
    cases hfalse
  cases hst : w.stage <;> cases hp : w.pending <;>
    simp only [Phase, hst, hp] at h <;> try exact h.elim
  case idle.none => exact ⟨h.1, h.2.2⟩
  case idle.some => exact hrunning h hp (by simp only [Uncommitted, hst])
  case beginManifest.none => exact ⟨.inl (h.1.restorable (.inl h.2)), fun _ => h.2⟩
  case beginPending.none => exact ⟨.inl (h.1.restorable (.inr h.2)), hthere h.1.staging⟩
  case staging.some => exact hrunning h.1 hp (by simp only [Uncommitted, hst])
  case copied.some => exact hrunning h.1 hp (by simp only [Uncommitted, hst])
  case working.some => exact hrunning h.1 hp (by simp only [Uncommitted, hst])
  case sqlite.some => exact hrunning h.1 hp (by simp only [Uncommitted, hst])
  case install.some => exact ⟨.inr h.1, hthere h.2.2⟩
  case restoring.none => exact ⟨.inl h.1, hthere h.2.2.1⟩
  case removing.none => exact ⟨h.1.imp_left And.left, hthere h.2.2⟩

omit [VaultCrypto μ] in
theorem restoreFromManifest_of_some {m : RekeyManifest} (hm : w.manifest = some m) :
    w.restoreFromManifest = .restoring m.entries.reverse := by
  simp only [restoreFromManifest, hm]

theorem phase_abort (h : w.Phase ps) (hok : w.Allowed ps .rekeyAbort) (hidle : w.stage.isIdle)
    (hs : w.rekeyAbort = some w') (hold : w.oldVault.Keyed w.oldMaster) : w'.Phase ps := by
  unfold rekeyAbort at hs
  split at hs
  · cases hs
  · rename_i hsome
    obtain ⟨p, hp⟩ := Option.ne_none_iff_exists'.mp (by simpa using hsome)
    have hst := stage_eq_idle hidle
    simp only [Phase, hst, hp] at h
    have hdisk := h.restorable (hok p (by rw [hp]; rfl))
    cases hs
    rw [restoreFromManifest_of_some h.manifest]
    simp only [Phase]
    refine ⟨{ hdisk with }, ?_, h.staging, p.manifest, h.manifest, fun e => List.mem_reverse.mp,
      fun e he => .inl (List.mem_reverse.mpr he)⟩
    intro m hm
    dsimp only at hm
    rw [h.active] at hm
    cases hm
    exact h.vault.keyed hold

theorem phase_recover (h : w.Phase ps) (hidle : w.stage.isIdle)
    (hs : w.recoverPendingRekey = some w') : w'.Phase ps := by
  unfold recoverPendingRekey at hs
  split at hs
  · cases hs
  · rename_i hnone
    have hp : w.pending = none := by simpa using hnone
    split at hs
    · cases hs
      exact h
    · rename_i hthere
      have hstaging : w.staging = true := by simpa using hthere
      have hst := stage_eq_idle hidle
      simp only [Phase, hst, hp] at h
      obtain ⟨hdisk, hunlocked, -⟩ := h
      split at hs
      · rename_i hm
        cases hs
        simp only [Phase, hp]
        refine ⟨?_, hunlocked, hstaging⟩
        exact hdisk.imp (fun hd => ⟨{ hd with }, hd.files hm⟩) fun hd => { hd with }
      · rename_i m hm
        split at hs
        · rename_i hsalt
          cases hs
          simp only [Phase, hp]
          refine ⟨.inr ?_, hunlocked, hstaging⟩
          rcases hdisk with hd | hd
          · exact absurd hsalt.symm (hd.salt m hm)
          · exact { hd with }
        · rename_i hsalt
          cases hs
          rcases hdisk with hd | hd
          · rw [restoreFromManifest_of_some hm]
            simp only [Phase, hp]
            exact ⟨{ hd with }, hunlocked, hstaging, m, hm, fun e => List.mem_reverse.mp,
              fun e he => .inl (List.mem_reverse.mpr he)⟩
          · exact absurd (hd.salt m hm).symm hsalt

theorem phase_commit {nonce : List UInt8} (h : w.Phase ps) (hok : w.Allowed ps (.rekeyCommit nonce))
    (hidle : w.stage.isIdle) (hs : w.rekeyCommit nonce = some w') : w'.Phase ps := by
  unfold rekeyCommit at hs
  split at hs
  · cases hs
  · rename_i p hp
    have hst := stage_eq_idle hidle
    simp only [Phase, hst, hp] at h
    cases hs
    simp only [Phase, hp]
    obtain ⟨pin, hpin⟩ := h.derived
    have hkeyed : VaultState.Keyed (VaultState.newFresh p.newSalt
        (sealBytes (.json p.master) nonce VaultState.verifierPlaintext)) w.newMaster := by
      rw [← h.master]
      exact ⟨⟨pin, hpin⟩, nonce, rfl⟩
    refine ⟨⟨hkeyed, ?_, ?_, fun f hf => h.rekeyed f (hok f hf) hf⟩, h.master, h.staging⟩
    · exact fun heq => h.fresh (heq.trans h.vault.1.symm)
    · intro m hm
      dsimp only at hm
      rw [h.manifest] at hm
      cases hm
      exact h.salt

theorem phase_rekey {f : VaultFile} (h : w.Phase ps) (hok : w.Allowed ps (.rekey f))
    (hidle : w.stage.isIdle) (hs : w.rekey f = some w') : w'.Phase ps := by
  obtain ⟨p, hp, heq⟩ : ∃ p, w.pending = some p ∧
      w' = { w with stage := .staging f f.toStage, rekeyed := w.rekeyed.filter (· ≠ f) } := by
    unfold rekey at hs
    split at hs
    · cases hs
    · cases hs
    · rename_i p _ _ _ hp _
      cases hs
      exact ⟨_, hp, rfl⟩
  subst heq
  have hst := stage_eq_idle hidle
  simp only [Phase, hst, hp] at h ⊢
  refine ⟨{ h with rekeyed := fun g hg => h.rekeyed g (List.mem_filter.mp hg).1 }, hok.1, hok.2, ?_,
    ?_, ?_⟩
  · intro q hq
    obtain ⟨e, he, rfl⟩ := List.mem_map.mp hq
    exact VaultFile.toStage_subset he
  · intro q hq
    obtain ⟨ifThere, hq⟩ := VaultFile.footprint_subset_toStage hq
    exact .inl (List.mem_map_of_mem hq)
  · intro hf
    simpa using (List.mem_filter.mp hf).2

theorem phase_sqliteWrite {q : FilePath} {bytes : Option (List UInt8)} (h : w.Phase ps)
    (hs : w.sqliteWrite q bytes = some w') : w'.Phase ps := by
  unfold sqliteWrite at hs
  split at hs
  · rename_i db plaintext hst
    cases hp : w.pending <;> simp only [Phase, hst, hp] at h
    split at hs
    · rename_i hq
      cases hs
      simp only [Phase, hst, hp]
      obtain ⟨hr, hw⟩ := h
      refine ⟨?_, { hw with }⟩
      have hwrite := hr.write bytes (hw.covered q hq) fun f hf hps hqf => by
        have hne : f ≠ .db db := by
          rintro rfl
          exact hw.notYet hf
        exact hw.apart f hps hne q hqf hq
      exact { hwrite with }
    · cases hs
  · cases hs

theorem phase_sqliteEnd {ok : Bool} (hreadable : ∀ f ∈ ps.files, (f.read w.oldMaster w.orig).isSome)
    (h : w.Phase ps) (hs : w.sqliteEnd ok = some w') : w'.Phase ps := by
  unfold sqliteEnd at hs
  split at hs
  · rename_i db plaintext p hst hp
    simp only [Phase, hst, hp] at h
    obtain ⟨hr, hw⟩ := h
    split at hs
    · split at hs
      · cases hs
      · rename_i hread
        cases hs
        simp only [Phase, hp]
        refine { hr with rekeyed := ?_ }
        intro f hf hps
        rcases List.mem_cons.mp hf with rfl | hf
        · have hplain := hw.plaintext hps
          have hsome : plaintext.isSome := by
            rw [hplain]
            exact hreadable _ hps
          rw [← hplain, ← hr.master]
          by_contra hne
          exact hread ⟨hsome, hne⟩
        · exact hr.rekeyed f hf hps
    · cases hs
      simp only [Phase, hp]
      exact { hr with }
  · cases hs

theorem inv_begin {pin : String} {salt : List UInt8} (h : w.Inv ps) (hidle : w.stage.isIdle)
    (hs : w.rekeyBegin pin salt = some w') : w'.Inv ps := by
  unfold rekeyBegin at hs
  split at hs
  · cases hs
  · rename_i master hactive
    split at hs
    · cases hs
    · rename_i hnot
      simp only [not_or] at hnot
      obtain ⟨-, hpending, hstaging, hsalt⟩ := hnot
      have hp : w.pending = none := by simpa using hpending
      have hphase := h.phase
      have hst := stage_eq_idle hidle
      simp only [Phase, hst, hp] at hphase
      obtain ⟨hdisk, hunlocked, hmanifest⟩ := hphase
      have hm := hmanifest (by simpa using hstaging)
      have hkeyed := hunlocked master hactive
      cases hs
      refine ⟨hkeyed, ?_, ?_⟩
      · intro f hf
        rcases hdisk with hd | hd
        · rw [hd.files hm, (hd.vault.keyed h.old).unique hkeyed]
          exact h.readable f hf
        · rw [hd.keyed.unique hkeyed, hd.read f hf]
          exact h.readable f hf
      · simp only [Phase, hp]
        exact ⟨⟨rfl, ⟨rfl, rfl⟩, rfl, hactive, rfl, hsalt, ⟨pin, rfl⟩, rfl, rfl⟩, hm⟩

/-- Only the beginning of a rekey takes a new look at what is there. -/
theorem orig_step {l : VaultLabel} (hl : ∀ pin salt, l ≠ .rekeyBegin pin salt)
    (hs : w.step l = some w') :
    w'.orig = w.orig ∧ w'.oldVault = w.oldVault ∧ w'.oldMaster = w.oldMaster := by
  cases l with
  | rekeyBegin pin salt => exact absurd rfl (hl pin salt)
  | tick nonce =>
      simp only [step, tick] at hs
      split at hs
      case h_4 =>
          split at hs
          · cases hs
            exact ⟨rfl, rfl, rfl⟩
          · split at hs <;> cases hs <;> exact ⟨rfl, rfl, rfl⟩
      case h_6 file p _ hp =>
          split at hs
          · cases hs
            exact ⟨rfl, rfl, rfl⟩
          · cases hs
            cases file <;> simp only [work] <;> split <;> exact ⟨rfl, rfl, rfl⟩
      case h_9 e es _ _ =>
          cases hs
          unfold restoreEntry
          split
          · split <;> exact ⟨rfl, rfl, rfl⟩
          · exact ⟨rfl, rfl, rfl⟩
      all_goals
        cases hs
        try exact ⟨rfl, rfl, rfl⟩
  | rekey file =>
      simp only [step, rekey] at hs
      split at hs
      · split at hs <;> cases hs
        exact ⟨rfl, rfl, rfl⟩
      · cases hs
  | recoverPendingRekey =>
      simp only [step, recoverPendingRekey] at hs
      split at hs
      · split at hs
        · cases hs
        · split at hs
          · cases hs
            exact ⟨rfl, rfl, rfl⟩
          · split at hs
            · cases hs
              exact ⟨rfl, rfl, rfl⟩
            · split at hs <;> cases hs <;> exact ⟨rfl, rfl, rfl⟩
      · cases hs
  | loginEnd i now =>
      simp only [step, loginEnd] at hs
      split at hs
      · cases hs
      · split at hs <;> cases hs <;> exact ⟨rfl, rfl, rfl⟩
  | sqliteEnd ok =>
      simp only [step, sqliteEnd] at hs
      split at hs
      · split at hs
        · split at hs <;> cases hs
          exact ⟨rfl, rfl, rfl⟩
        · cases hs
          exact ⟨rfl, rfl, rfl⟩
      · cases hs
  | rekeyCommit nonce =>
      simp only [step, rekeyCommit] at hs
      split at hs
      · split at hs <;> cases hs
        exact ⟨rfl, rfl, rfl⟩
      · cases hs
  | rekeyAbort =>
      simp only [step, rekeyAbort] at hs
      split at hs
      · split at hs <;> cases hs
        exact ⟨rfl, rfl, rfl⟩
      · cases hs
  | sqliteWrite q bytes =>
      simp only [step, sqliteWrite] at hs
      split at hs
      · split at hs <;> cases hs
        exact ⟨rfl, rfl, rfl⟩
      · cases hs
  | unlinkManifest =>
      simp only [step] at hs
      split at hs <;> cases hs
      exact ⟨rfl, rfl, rfl⟩
  | unlinkBackup q =>
      simp only [step] at hs
      split at hs <;> cases hs
      exact ⟨rfl, rfl, rfl⟩
  | login unlock pin now =>
      simp only [step, login] at hs
      split at hs <;> cases hs
      exact ⟨rfl, rfl, rfl⟩
  | crash =>
      cases hs
      exact ⟨rfl, rfl, rfl⟩

theorem phase_unlink {m : Option RekeyManifest} {backups : FilePath → Option (List UInt8)}
    (h : w.Phase ps) (hst : w.stage = .removing) (hm : m = w.manifest ∨ m = none)
    (hb : ∀ q, backups q = w.backups q ∨ backups q = none) :
    Phase ps { w with manifest := m, backups } := by
  have hmem : ∀ {x}, m = some x → w.manifest = some x := by
    rintro x rfl
    exact (hm.resolve_right (by simp)).symm
  cases hp : w.pending <;> simp only [Phase, hst, hp] at h
  simp only [Phase, hst]
  obtain ⟨hdisk, hunlocked, hstaging⟩ := h
  refine ⟨?_, hunlocked, hstaging⟩
  rcases hdisk with ⟨hd, hfiles⟩ | hd
  · refine .inl ⟨⟨hd.vault, fun _ => hfiles, fun x hx => hd.salt x (hmem hx), ?_,
      fun x hx => hd.unlisted x (hmem hx)⟩, hfiles⟩
    intro x hx e he
    have hundone := hd.undone x (hmem hx) e he
    unfold Undone at hundone ⊢
    dsimp only
    split
    · rename_i hbackup
      rw [if_pos hbackup] at hundone
      refine ⟨fun bytes hbytes => ?_, fun _ => by rw [hfiles]⟩
      rcases hb e.orig with hsame | hnone
      · exact hundone.1 bytes (hsame ▸ hbytes)
      · rw [hnone] at hbytes
        cases hbytes
    · rename_i hbackup
      rwa [if_neg hbackup] at hundone
  · exact .inr ⟨hd.keyed, hd.fresh, fun x hx => hd.salt x (hmem hx), hd.read⟩

/-- **No allowed step breaks the rekey.** -/
theorem inv_step {l : VaultLabel} (h : w.Inv ps) (hok : w.Allowed ps l)
    (hs : w.step l = some w') : w'.Inv ps := by
  by_cases hl : ∃ pin salt, l = .rekeyBegin pin salt
  · obtain ⟨pin, salt, rfl⟩ := hl
    simp only [step] at hs
    split at hs
    · rename_i hidle
      exact inv_begin h hidle hs
    · cases hs
  obtain ⟨horig, hvault, hmaster⟩ := orig_step (fun pin salt heq => hl ⟨pin, salt, heq⟩) hs
  refine ⟨by rw [hvault, hmaster]; exact h.old, by rw [horig, hmaster]; exact h.readable, ?_⟩
  have hphase := h.phase
  cases l with
  | rekeyBegin pin salt => exact absurd ⟨pin, salt, rfl⟩ hl
  | rekey f =>
      simp only [step] at hs
      split at hs
      · rename_i hidle
        exact phase_rekey hphase hok hidle hs
      · cases hs
  | rekeyCommit nonce =>
      simp only [step] at hs
      split at hs
      · rename_i hidle
        exact phase_commit hphase hok hidle hs
      · cases hs
  | rekeyAbort =>
      simp only [step] at hs
      split at hs
      · rename_i hidle
        exact phase_abort hphase hok hidle hs h.old
      · cases hs
  | recoverPendingRekey =>
      simp only [step] at hs
      split at hs
      · rename_i hidle
        exact phase_recover hphase hidle hs
      · cases hs
  | tick nonce => exact phase_tick hphase hs
  | sqliteWrite q bytes => exact phase_sqliteWrite hphase hs
  | sqliteEnd ok => exact phase_sqliteEnd h.readable hphase hs
  | unlinkManifest =>
      simp only [step] at hs
      split at hs
      · rename_i hst
        cases hs
        exact phase_unlink hphase hst (.inr rfl) fun q => .inl rfl
      · cases hs
  | unlinkBackup path =>
      simp only [step] at hs
      split at hs
      · rename_i hst
        cases hs
        refine phase_unlink hphase hst (.inl rfl) fun q => ?_
        by_cases hq : q = path
        · rw [hq, Function.update_self]
          exact .inr rfl
        · exact .inl (Function.update_of_ne hq _ _)
      · cases hs
  | login unlock pin now =>
      simp only [step, login] at hs
      split at hs
      · cases hs
      · cases hs
        exact phase_login h.old hphase ⟨rfl, rfl⟩ (.inl rfl)
  | loginEnd i now => exact phase_loginEnd h.old hphase hok hs
  | crash =>
      cases hs
      exact phase_crash hphase hok

end VaultWorld

/-! ## Whole runs -/

/-- A process that has just started on a vault whose protected files all read. -/
structure VaultStart (μ : Type) [VaultCrypto μ] (ps : Protected) where
  files : FilePath → Option (List UInt8)
  vault : VaultState
  master : μ
  keyed : vault.Keyed master
  readable : ∀ f ∈ ps.files, (f.read master files).isSome

def VaultStart.world {ps : Protected} (s : VaultStart μ ps) : VaultWorld μ where
  files := s.files
  vault := s.vault
  staging := false
  manifest := none
  backups := fun _ => none
  active := none
  pending := none
  exhausted := false
  logins := []
  stage := .idle
  orig := s.files
  oldVault := s.vault
  oldMaster := s.master
  newMaster := s.master
  rekeyed := []

namespace VaultWorld

variable {ps : Protected} {w : VaultWorld μ}

theorem inv_world (s : VaultStart μ ps) : s.world.Inv ps where
  old := s.keyed
  readable := s.readable
  phase := by
    simp only [Phase, VaultStart.world]
    refine ⟨.inl ⟨⟨rfl, rfl⟩, fun _ => rfl, ?_, ?_, ?_⟩, ?_, fun _ => trivial⟩ <;>
      · intro m hm
        cases hm

theorem inv_reachable (s : VaultStart μ ps) (hr : Lts.Reach step (Allowed ps) s.world w) :
    w.Inv ps :=
  hr.invariant (inv_world s) fun _ _ _ _ h hok hs => inv_step h hok hs

/-- **A rekey happens or does not.** Once no rekey is under way and none is left to recover from,
either `vault.json` has the old salt and every file is what it was when the last rekey began, or it
has another one and every protected file reads under the new keys as it did then. -/
theorem atomic (s : VaultStart μ ps) (hr : Lts.Reach step (Allowed ps) s.world w)
    (hidle : w.stage.isIdle) (hp : w.pending = none) (hstaging : w.staging = false) :
    (w.vault.SameLock w.oldVault ∧ w.vault.Keyed w.oldMaster ∧ w.files = w.orig ∧
      ∀ f ∈ ps.files, (f.read w.oldMaster w.files).isSome) ∨
    (w.vault.salt ≠ w.oldVault.salt ∧ w.vault.Keyed w.newMaster ∧
      ∀ f ∈ ps.files, (f.read w.newMaster w.files).isSome ∧
        f.read w.newMaster w.files = f.read w.oldMaster w.orig) := by
  have h := inv_reachable s hr
  have hphase := h.phase
  have hst := stage_eq_idle hidle
  simp only [Phase, hst, hp] at hphase
  obtain ⟨hdisk, -, hmanifest⟩ := hphase
  rcases hdisk with hd | hd
  · have hfiles := hd.files (hmanifest hstaging)
    refine .inl ⟨hd.vault, hd.vault.keyed h.old, hfiles, fun f hf => ?_⟩
    rw [hfiles]
    exact h.readable f hf
  · refine .inr ⟨hd.fresh, hd.keyed, fun f hf => ⟨?_, hd.read f hf⟩⟩
    rw [hd.read f hf]
    exact h.readable f hf

end VaultWorld

end Whole

section Example

/-- A master that is shown in what it seals. -/
structure ShownMaster where
  id : UInt8
  deriving DecidableEq

/-- A list of bytes that can be told from what follows it. -/
def marked : List UInt8 → List UInt8 → List UInt8
  | [], body => 0 :: body
  | b :: salt, body => 1 :: b :: marked salt body

def unmark : List UInt8 → List UInt8 → Option (List UInt8)
  | [], 0 :: body => some body
  | b :: salt, 1 :: c :: rest => if b = c then unmark salt rest else none
  | _, _ => none

theorem unmark_marked (salt body : List UInt8) : unmark salt (marked salt body) = some body := by
  induction salt with
  | nil => rfl
  | cons b salt ih => rw [marked, unmark, if_pos rfl, ih]

theorem salt_of_unmark {salt salt' body body' : List UInt8}
    (h : unmark salt' (marked salt body) = some body') : salt' = salt := by
  induction salt generalizing salt' with
  | nil =>
      cases salt' with
      | nil => rfl
      | cons b salt' => simp [marked, unmark] at h
  | cons b salt ih =>
      cases salt' with
      | nil => simp [marked, unmark] at h
      | cons c salt' =>
          rw [marked, unmark] at h
          split at h
          · rename_i heq
            rw [heq, ih h]
          · cases h

namespace VaultKey

def shown : VaultKey ShownMaster → List UInt8
  | .json m => [m.id]
  | .attachment m salt => m.id :: 1 :: salt

theorem shown_injective {k k' : VaultKey ShownMaster} (h : k.shown = k'.shown) : k = k' := by
  cases k with
  | json m =>
      cases k' with
      | json m' =>
          injection h with h
          cases m
          cases m'
          cases h
          rfl
      | attachment m' salt' => simp [shown] at h
  | attachment m salt =>
      cases k' with
      | json m' => simp [shown] at h
      | attachment m' salt' =>
          injection h with h hs
          injection hs with _ hs
          cases m
          cases m'
          cases h
          cases hs
          rfl

end VaultKey

instance : VaultCrypto ShownMaster where
  deriveMaster _ salt := ⟨salt.headD 0⟩
  sealBytes k _ m := marked k.shown m
  openBytes k bytes := unmark k.shown bytes
  openDb m bytes wal _ :=
    match bytes with
    | [] => none
    | b :: bytes => if b = m.id then some (bytes ++ wal.getD []) else none
  open_sealBytes k _ m := unmark_marked k.shown m
  key_of_open _ _ _ _ _ h := VaultKey.shown_injective (salt_of_unmark h)

/-- One contact file, under the keys of the first PIN. -/
def contactsOnly : Protected where
  files := [.json "contacts"]
  apart := by
    intro f hf g hg hne
    rw [List.mem_singleton] at hf hg
    exact absurd (hg.trans hf.symm) hne

def firstVault : VaultState :=
  VaultState.newFresh [1] (sealBytes (.json (⟨1⟩ : ShownMaster)) [] VaultState.verifierPlaintext)

def contactsStart : VaultStart ShownMaster contactsOnly where
  files := Function.update (fun _ => none) "contacts"
    (some (encryptFile (.json (⟨1⟩ : ShownMaster)) [] [7]))
  vault := firstVault
  master := ⟨1⟩
  keyed := ⟨⟨"1111", rfl⟩, [], rfl⟩
  readable := by
    intro f hf
    cases List.mem_singleton.mp hf
    decide +kernel

namespace VaultWorld

/-- Unlock and begin. -/
def begun : List VaultLabel :=
  [.login true "1111" 0, .loginEnd 0 0, .rekeyBegin "2222" [2], .tick [], .tick []]

/-- Copy, enter, look, rewrite. -/
def rekeyContacts : List VaultLabel :=
  [.rekey (.json "contacts"), .tick [], .tick [], .tick [], .tick []]

/-- The same file is rekeyed twice, and then the rekey is abandoned. -/
def twiceRun : List VaultLabel :=
  begun ++ rekeyContacts ++ rekeyContacts ++ [.rekeyAbort, .tick [], .tick [], .tick []]

def committedRun : List VaultLabel :=
  begun ++ rekeyContacts ++ [.rekeyCommit [], .tick [], .tick []]

/-- **What was rekeyed twice is lost.** The second call copies what the first one wrote over what
the first one copied. -/
theorem original_lost : ∃ w : VaultWorld ShownMaster,
    Lts.exec step contactsStart.world twiceRun = some w ∧
      (w.stage.isIdle ∧ w.pending.isNone ∧ w.staging = false ∧ w.vault.salt = [1]) ∧
      (VaultFile.json "contacts").read (deriveMaster "1111" w.vault.salt) w.files = none :=
  ⟨_, rfl, by decide +kernel⟩

/-- Enough to be allowed, where there is only the contact file. -/
def careful (w : VaultWorld ShownMaster) : VaultLabel → Bool
  | .rekey f => f = .json "contacts" ∧ w.files "contacts" = w.orig "contacts"
  | .rekeyCommit _ => .json "contacts" ∈ w.rekeyed
  | .loginEnd i _ => w.logins[i]?.all fun l =>
      l.state.salt = w.vault.salt ∧ l.state.verifier = w.vault.verifier
  | .rekeyAbort => false
  | .crash => false
  | _ => true

theorem allowed_of_careful {w : VaultWorld ShownMaster} {l : VaultLabel} (h : w.careful l = true) :
    w.Allowed contactsOnly l := by
  cases l with
  | rekey f =>
      obtain ⟨rfl, hsame⟩ := of_decide_eq_true h
      refine ⟨fun q hq => ?_, fun _ g hg hne => absurd (List.mem_singleton.mp hg) hne⟩
      cases List.mem_singleton.mp hq
      exact hsame
  | rekeyCommit nonce =>
      intro f hf
      cases List.mem_singleton.mp hf
      exact of_decide_eq_true h
  | loginEnd i now =>
      intro l hl
      have hall : w.logins[i]?.all (fun l => decide (l.state.salt = w.vault.salt
        ∧ l.state.verifier = w.vault.verifier)) = true := h
      rw [Option.mem_def.mp hl] at hall
      have hlock : l.state.salt = w.vault.salt ∧ l.state.verifier = w.vault.verifier :=
        of_decide_eq_true hall
      exact hlock
  | rekeyAbort => cases h
  | crash => cases h
  | _ => trivial

/-- One file, rekeyed once, and committed. -/
theorem atomic_committedRun : ∃ w : VaultWorld ShownMaster,
    (w.vault.salt = [2] ∧ w.rekeyed = [.json "contacts"]) ∧
      ((w.vault.SameLock w.oldVault ∧ w.vault.Keyed w.oldMaster ∧ w.files = w.orig ∧
        ∀ f ∈ contactsOnly.files, (f.read w.oldMaster w.files).isSome) ∨
      (w.vault.salt ≠ w.oldVault.salt ∧ w.vault.Keyed w.newMaster ∧
        ∀ f ∈ contactsOnly.files, (f.read w.newMaster w.files).isSome ∧
          f.read w.newMaster w.files = f.read w.oldMaster w.orig)) := by
  have hrun : (Lts.execWhile step (fun w l => w.careful l = true) contactsStart.world
      committedRun).isSome = true := by decide +kernel
  have hr := (Lts.reach_getD hrun).mono fun _ _ => allowed_of_careful
  exact ⟨_, by decide +kernel, atomic contactsStart hr (by decide +kernel) (by rfl)
    (by decide +kernel)⟩

end VaultWorld

end Example

end Paranoia
