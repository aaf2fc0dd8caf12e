import Paranoia.Client.FileGuard
import Paranoia.Lib.Lts

/-!
# When an unreadable file is left alone

Two things keep a value that was computed from a failed read from being written: the flag, and the
lock of the vault. A read of a locked vault raises no flag, so its value is only held back until the
vault is unlocked; and each unlock takes the flag down, whatever is still held. Where neither happens
while such a value is held (`Undisturbed`), no file is replaced because it could not be read.
-/

namespace Paranoia

namespace FileWorld

variable {w w' : FileWorld} {l : FileLabel} {x : FileVar} {value : FileValue} {i : Nat}

/-! ## What is asked of the steps -/

/-- The flag holds the value back, and no write of it has got past the flag. -/
def Held (w : FileWorld) (x : FileVar) : Prop :=
  x.value.failed = [] ∨ x.phase = .unmarked ∨ x.phase = .ready ∧ w.vaultIoFailed = true

/-- The cached manifest is held like a variable. -/
def heldVars (w : FileWorld) : List FileVar :=
  w.vars ++ (w.manifestCache.map (fun value => ⟨value, .ready⟩)).toList

/-- The vault gets a key, and the flag is taken down with the vault open, only if what is held of
failed reads is held back afterwards. -/
def Undisturbed (w : FileWorld) : FileLabel → Prop
  | .vaultUnlock _ => ∀ x ∈ w.heldVars, w.Held x
  | .resetVaultIoFailure =>
      w.masterKey = none ∨ ∀ x ∈ w.heldVars, x.value.failed = [] ∨ x.phase = .unmarked
  | _ => True

instance (w : FileWorld) (x : FileVar) : Decidable (w.Held x) :=
  inferInstanceAs (Decidable (_ ∨ _ ∨ _ ∧ _))

instance (w : FileWorld) (l : FileLabel) : Decidable (w.Undisturbed l) := by
  unfold Undisturbed
  split <;> infer_instance

/-! ## The invariant -/

/-- What is held of failed reads is held back, as long as the vault has a key. -/
structure Guarded (w : FileWorld) : Prop where
  held : w.masterKey = none ∨ ∀ x ∈ w.heldVars, w.Held x
  lost : w.lost = []

/-- In a world that a step leaves, each value was held before, or is held back. -/
theorem Guarded.of_held (h : w.Guarded) (hkey : w'.masterKey = w.masterKey)
    (hheld : ∀ x ∈ w'.heldVars, (∀ y ∈ w.heldVars, w.Held y) → w.masterKey ≠ none → w'.Held x)
    (hlost : w'.lost = w.lost) : w'.Guarded where
  held := by
    by_cases hnone : w.masterKey = none
    · exact .inl (hkey.trans hnone)
    · have hall := h.held.resolve_left hnone
      exact .inr (fun x hx => hheld x hx hall hnone)
  lost := hlost.trans h.lost

theorem mem_heldVars : x ∈ w.heldVars ↔ x ∈ w.vars
    ∨ ∃ value, w.manifestCache = some value ∧ x = ⟨value, .ready⟩ := by
  unfold heldVars
  rw [List.mem_append]
  cases w.manifestCache with
  | none => simp
  | some value => simp

theorem mem_heldVars_of_getElem? (h : w.vars[i]? = some x) : x ∈ w.heldVars :=
  mem_heldVars.mpr (.inl (List.mem_of_getElem? h))

/-- Another variable comes to the others. -/
theorem Guarded.push (h : w.Guarded)
    (hx : (∀ y ∈ w.heldVars, w.Held y) → w.masterKey ≠ none → w.Held x) : (w.push x).Guarded := by
  refine h.of_held rfl (fun y hy hall hkey => ?_) rfl
  rcases mem_heldVars.mp hy with hy | hy
  · rcases List.mem_append.mp hy with hy | hy
    · exact hall y (mem_heldVars.mpr (.inl hy))
    · rw [List.mem_singleton.mp hy]
      exact hx hall hkey
  · exact hall y (mem_heldVars.mpr (.inr hy))

theorem held_of_fewer {vars : List FileVar} (hsub : ∀ y ∈ vars, y ∈ w.vars)
    (hx : x ∈ heldVars { w with vars := vars }) : x ∈ w.heldVars :=
  mem_heldVars.mpr ((mem_heldVars.mp hx).imp_left (hsub x))

theorem Guarded.drop (h : w.Guarded) (i : Nat) :
    Guarded { w with vars := w.vars.eraseIdx i } :=
  h.of_held rfl (fun x hx hall _ =>
    hall x (held_of_fewer (fun _ hy => List.mem_of_mem_eraseIdx hy) hx)) rfl

/-- A read of an open vault is right, or goes on to raise the flag. -/
theorem held_readAll (path : String) (hkey : w.masterKey ≠ none) : w.Held (w.readAll path) := by
  unfold readAll
  split
  · exact .inl rfl
  · split
    · rename_i hnone
      exact absurd hnone hkey
    · split
      · exact .inl rfl
      · exact .inr (.inl rfl)

theorem guarded_mark (h : w.Guarded) :
    Guarded { w.setVar i ⟨value, .ready⟩ with vaultIoFailed := true } := by
  refine h.of_held rfl (fun x hx hall _ => ?_) rfl
  have hraise : ∀ y, w.Held y → y.value.failed = [] ∨ y.phase = .unmarked ∨ y.phase = .ready :=
    fun y hy => hy.imp_right (fun hy => hy.imp_right And.left)
  have hheld : x = ⟨value, .ready⟩ ∨ x ∈ w.heldVars := by
    rcases mem_heldVars.mp hx with hx | hx
    · rcases List.mem_or_eq_of_mem_set hx with hx | hx
      · exact .inr (mem_heldVars.mpr (.inl hx))
      · exact .inl hx
    · exact .inr (mem_heldVars.mpr (.inr hx))
  rcases hheld with rfl | hheld
  · exact .inr (.inr ⟨rfl, rfl⟩)
  · rcases hraise x (hall x hheld) with hfailed | hphase | hphase
    · exact .inl hfailed
    · exact .inr (.inl hphase)
    · exact .inr (.inr ⟨hphase, rfl⟩)

theorem held_ready (h : w.Held ⟨value, .ready⟩) : value.failed = [] ∨ w.vaultIoFailed = true := by
  rcases h with h | h | h
  · exact .inl h
  · cases h
  · exact .inr h.2

/-- **What gets past the flag and into the vault comes from no failed read.** -/
theorem guarded_encrypt {path : String} (h : w.Guarded)
    (hi : w.vars[i]? = some ⟨value, .checked path⟩) :
    ({ w with vars := w.vars.eraseIdx i }.vaultEncryptJson value path).Guarded := by
  have hdrop := h.drop i
  unfold vaultEncryptJson
  dsimp only
  cases hkey : w.masterKey with
  | none =>
      rw [hkey] at hdrop
      exact hdrop
  | some key =>
      have hall := h.held.resolve_left (by rw [hkey]; exact Option.some_ne_none key)
      have hfailed : value.failed = [] := by
        rcases hall _ (mem_heldVars_of_getElem? hi) with hv | hv | hv
        · exact hv
        · cases hv
        · cases hv.1
      have hnot : ¬ (path ∈ value.failed ∧ (w.disk path).isSome = true) := by
        rw [hfailed]
        exact fun hlost => List.not_mem_nil hlost.1
      refine hdrop.of_held hkey.symm (fun x hx hall _ => hall x hx) ?_
      exact if_neg hnot

theorem guarded_step (h : w.Guarded) (hok : w.Undisturbed l) (hs : w.step l = some w') :
    w'.Guarded := by
  cases l with
  | readAll path =>
      cases hs
      exact h.push (fun _ hkey => held_readAll path hkey)
  | markVaultIoFailure i =>
      unfold step at hs
      dsimp only at hs
      split at hs
      · cases hs
        exact guarded_mark h
      · cases hs
  | compute i j data =>
      unfold step at hs
      dsimp only at hs
      split at hs
      · rename_i a b hi hj
        cases hs
        refine h.push (fun hall _ => ?_)
        rcases held_ready (hall _ (mem_heldVars_of_getElem? hi)) with ha | hflag
        · rcases held_ready (hall _ (mem_heldVars_of_getElem? hj)) with hb | hflag
          · refine .inl ?_
            dsimp only
            rw [ha, hb]
            rfl
          · exact .inr (.inr ⟨rfl, hflag⟩)
        · exact .inr (.inr ⟨rfl, hflag⟩)
      · cases hs
  | fresh data =>
      cases hs
      exact h.push (fun _ _ => .inl rfl)
  | drop i =>
      cases hs
      exact h.drop i
  | writeFile i path =>
      unfold step at hs
      dsimp only at hs
      split at hs
      · rename_i value hi
        split at hs
        · cases hs
          exact h
        · rename_i hflag
          cases hs
          refine h.push (fun hall _ => .inl ?_)
          exact (held_ready (hall _ (mem_heldVars_of_getElem? hi))).resolve_right hflag
      · cases hs
  | vaultEncryptJson i =>
      unfold step at hs
      dsimp only at hs
      split at hs
      · rename_i value path hi
        cases hs
        exact guarded_encrypt h hi
      · cases hs
  | cacheManifest i =>
      unfold step at hs
      dsimp only at hs
      split at hs
      · rename_i value hi
        cases hs
        refine h.of_held rfl (fun x hx hall _ => ?_) rfl
        rcases mem_heldVars.mp hx with hx | ⟨v, hv, rfl⟩
        · exact hall x (mem_heldVars.mpr (.inl hx))
        · cases hv
          exact hall _ (mem_heldVars_of_getElem? hi)
      · cases hs
  | loadCachedManifest =>
      obtain ⟨value, hcache, rfl⟩ := Option.map_eq_some_iff.mp hs
      exact h.push (fun hall _ => hall _ (mem_heldVars.mpr (.inr ⟨value, hcache, rfl⟩)))
  | invalidateProfilesManifestCache =>
      cases hs
      refine h.of_held rfl (fun x hx hall _ => ?_) rfl
      rcases mem_heldVars.mp hx with hx | ⟨v, hv, -⟩
      · exact hall x (mem_heldVars.mpr (.inl hx))
      · cases hv
  | resetVaultIoFailure =>
      cases hs
      refine ⟨hok.imp_right (fun hall x hx => ?_), h.lost⟩
      exact (hall x hx).imp_right .inl
  | vaultLock =>
      cases hs
      exact ⟨.inl rfl, h.lost⟩
  | vaultUnlock key =>
      cases hs
      exact ⟨.inr hok, h.lost⟩
  | rekeyFile path key =>
      obtain ⟨old, -, rfl⟩ := Option.map_eq_some_iff.mp hs
      unfold rekeyFile
      split
      · split
        · exact h.of_held rfl (fun x hx hall _ => hall x hx) rfl
        · exact h
      · exact h
  | rekeyCommit key =>
      obtain ⟨old, hold, rfl⟩ := Option.map_eq_some_iff.mp hs
      exact ⟨.inr (h.held.resolve_left (by rw [hold]; exact Option.some_ne_none old)), h.lost⟩
  | remove path =>
      cases hs
      exact h.of_held rfl (fun x hx hall _ => hall x hx) rfl

/-! ## Every run -/

/-- **What could not be read is not overwritten** in any run whose steps are undisturbed. -/
theorem nothing_lost {disk : String → Option StoredFile}
    (hr : Lts.Reach step Undisturbed (init disk) w) : w.lost = [] :=
  (hr.invariant (P := Guarded) ⟨.inl rfl, rfl⟩
    (fun _ _ _ _ h hok hs => guarded_step h hok hs)).lost

/-! ## What is lost -/

section Example

/-- The dialogues are there, under the key `1`. -/
def oneFile : String → Option StoredFile :=
  Function.update (fun _ => none) "dialogs.json" (some ⟨1, [1, 2, 3]⟩)

/-- A worker of a login reads the dialogues when the vault is locked, and the login saves what it has
made of them when it is open again. -/
def lockedRun : List FileLabel :=
  [.vaultUnlock 1, .vaultLock, .readAll "dialogs.json", .vaultUnlock 1, .resetVaultIoFailure,
    .compute 0 0 [9], .writeFile 1 "dialogs.json", .vaultEncryptJson 2]

/-- The dialogues do not decrypt, the flag goes up, and the next unlock takes it down. -/
def resetRun : List FileLabel :=
  [.vaultUnlock 2, .readAll "dialogs.json", .markVaultIoFailure 0, .vaultLock, .vaultUnlock 2,
    .resetVaultIoFailure, .compute 0 0 [9], .writeFile 1 "dialogs.json", .vaultEncryptJson 2]

theorem dialogs_lost :
    (∃ w, Lts.exec step (init oneFile) lockedRun = some w ∧ w.lost = ["dialogs.json"]
      ∧ w.disk "dialogs.json" = some ⟨1, [9]⟩)
    ∧ ∃ w, Lts.exec step (init oneFile) resetRun = some w ∧ w.lost = ["dialogs.json"]
      ∧ w.disk "dialogs.json" = some ⟨2, [9]⟩ :=
  ⟨⟨_, rfl, by decide⟩, ⟨_, rfl, by decide⟩⟩

/-- A file does not decrypt, and the write is refused; after what was read is forgotten the vault is
locked and opened under the right key, and the dialogues are read, changed and saved. -/
def carefulRun : List FileLabel :=
  [.vaultUnlock 2, .resetVaultIoFailure, .readAll "dialogs.json", .markVaultIoFailure 0,
    .compute 0 0 [9], .writeFile 1 "dialogs.json", .drop 0, .drop 0, .vaultLock, .vaultUnlock 1,
    .resetVaultIoFailure, .readAll "dialogs.json", .compute 0 0 [1, 2, 3, 4],
    .writeFile 1 "dialogs.json", .vaultEncryptJson 2, .rekeyFile "dialogs.json" 3, .rekeyCommit 3]

theorem nothing_lost_carefulRun :
    (Lts.execWhile step Undisturbed (init oneFile) carefulRun).isSome = true
    ∧ ((Lts.execWhile step Undisturbed (init oneFile) carefulRun).getD (init oneFile)).lost = [] :=
  have h : (Lts.execWhile step Undisturbed (init oneFile) carefulRun).isSome = true := by decide
  ⟨h, nothing_lost (Lts.reach_getD h)⟩

end Example

end FileWorld

end Paranoia
