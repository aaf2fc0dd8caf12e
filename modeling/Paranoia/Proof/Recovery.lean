import Paranoia.Client.Recovery

/-!
# When a copy is lost

The staging directory goes whatever became of the copies in it. So a copy survives until it has been
put back exactly as long as its own rename does not fail, or the removal does; and where the
recovery cannot even see that there is a manifest, only the latter helps. A file that has been put
back holds the bytes of its copy, unless a later entry of the same path says that there was none.
-/

namespace Paranoia

namespace RekeyDisk

variable {f : FileFaults} {d : RekeyDisk} {path : FilePath} {i : Nat}

/-! ## One entry -/

theorem restored_restoreEntry (e : RekeyEntry) :
    path ∈ (d.restoreEntry f i e).restored ↔ path ∈ d.restored ∨
      Renamed f path (e, i) ∧ d.backups path ≠ none := by
  unfold Renamed
  obtain ⟨orig, backup⟩ := e
  cases backup with
  | false =>
      have hsame : (d.restoreEntry f i ⟨orig, false⟩).restored = d.restored := by
        rw [restoreEntry, if_neg (by simp)]
        split <;> rfl
      simp [hsame]
  | true =>
      rw [restoreEntry, if_pos rfl]
      dsimp only
      cases hb : d.backups orig with
      | none =>
          refine ⟨.inl, fun h => h.resolve_right ?_⟩
          rintro ⟨⟨heq, -⟩, hne⟩
          cases heq
          exact hne hb
      | some bytes =>
          dsimp only
          split
          · rename_i hfail
            refine ⟨.inl, fun h => h.resolve_right ?_⟩
            rintro ⟨⟨-, hstat, hrename⟩, -⟩
            rw [hstat, hrename] at hfail
            cases hfail
          · rename_i hok
            obtain ⟨hstat, hrename⟩ : f.statBackup i = false ∧ f.restore i = false := by
              simpa using hok
            rw [List.mem_cons]
            constructor
            · rintro (rfl | h)
              · exact .inr ⟨⟨rfl, hstat, hrename⟩, by rw [hb]; exact Option.some_ne_none _⟩
              · exact .inl h
            · rintro (h | ⟨⟨heq, -⟩, -⟩)
              · exact .inr h
              · cases heq
                exact .inl rfl

/-- A copy that is not put back stays where it is. -/
theorem backups_restoreEntry (e : RekeyEntry) (h : path ∉ (d.restoreEntry f i e).restored) :
    (d.restoreEntry f i e).backups path = d.backups path := by
  unfold restoreEntry at h ⊢
  split at h
  · rename_i hbackup
    rw [if_pos hbackup]
    cases hb : d.backups e.orig with
    | none => rfl
    | some bytes =>
        rw [hb] at h
        dsimp only at h ⊢
        split at h
        · rename_i hfail
          rw [if_pos hfail]
        · rename_i hok
          rw [if_neg hok]
          refine Function.update_of_ne ?_ _ _
          rintro rfl
          exact h List.mem_cons_self
  · rename_i hbackup
    rw [if_neg hbackup]
    split <;> rfl

/-- A copy that is put back is gone, and the file holds what was in it. -/
theorem renamed_restoreEntry {e : RekeyEntry} (h : Renamed f path (e, i))
    (hb : d.backups path ≠ none) :
    (d.restoreEntry f i e).backups path = none ∧
      (d.restoreEntry f i e).files path = d.backups path := by
  obtain ⟨heq, hstat, hrename⟩ := h
  cases heq
  obtain ⟨bytes, hbytes⟩ := Option.ne_none_iff_exists'.mp hb
  have hstep : d.restoreEntry f i ⟨path, true⟩ =
      { d with files := Function.update d.files path (some bytes)
               backups := Function.update d.backups path none
               restored := path :: d.restored } := by
    rw [restoreEntry, if_pos rfl]
    dsimp only at hstat hrename ⊢
    rw [hbytes, hstat, hrename]
    rfl
  rw [hstep, hbytes]
  exact ⟨Function.update_self .., Function.update_self ..⟩

/-- Where there is no copy, an entry leaves the file alone or removes it. -/
theorem files_restoreEntry (e : RekeyEntry) (hb : d.backups path = none) :
    (d.restoreEntry f i e).backups path = none ∧
      (d.restoreEntry f i e).files path =
        if Removed f path (e, i) then none else d.files path := by
  obtain ⟨orig, backup⟩ := e
  cases backup with
  | true =>
      have hnot : ¬ Removed f path (⟨orig, true⟩, i) := fun h => by cases h.1
      rw [if_neg hnot, restoreEntry, if_pos rfl]
      dsimp only
      cases horig : d.backups orig with
      | none => exact ⟨hb, rfl⟩
      | some bytes =>
          have hne : path ≠ orig := by
            rintro rfl
            rw [hb] at horig
            cases horig
          dsimp only
          split
          · exact ⟨hb, rfl⟩
          · exact ⟨(Function.update_of_ne hne _ _).trans hb, Function.update_of_ne hne _ _⟩
  | false =>
      rw [restoreEntry, if_neg (by simp)]
      by_cases hremoved : Removed f path (⟨orig, false⟩, i)
      · obtain ⟨heq, hok⟩ := hremoved
        cases heq
        have hok' : ¬ f.restore i = true := Bool.eq_false_iff.mp hok
        rw [if_neg hok', if_pos ⟨rfl, hok⟩]
        exact ⟨hb, Function.update_self ..⟩
      · rw [if_neg hremoved]
        split
        · exact ⟨hb, rfl⟩
        · rename_i hok
          refine ⟨hb, Function.update_of_ne ?_ _ _⟩
          rintro rfl
          exact hremoved ⟨rfl, Bool.eq_false_iff.mpr hok⟩

theorem restoreEntry_manifest (e : RekeyEntry) : (d.restoreEntry f i e).manifest = d.manifest := by
  unfold restoreEntry
  repeat' split
  all_goals rfl

/-! ## The loop -/

theorem restored_mono (es : List RekeyEntry) (h : path ∈ d.restored) :
    path ∈ (restoreEntries f i es d).restored := by
  induction es generalizing i d with
  | nil => exact h
  | cons e es ih => exact ih ((restored_restoreEntry e).mpr (.inl h))

theorem backups_restoreEntries (es : List RekeyEntry)
    (h : path ∉ (restoreEntries f i es d).restored) :
    (restoreEntries f i es d).backups path = d.backups path := by
  induction es generalizing i d with
  | nil => rfl
  | cons e es ih =>
      have hstep : path ∉ (d.restoreEntry f i e).restored := fun hmem => h (restored_mono es hmem)
      exact (ih h).trans (backups_restoreEntry e hstep)

theorem restoreEntries_manifest (es : List RekeyEntry) :
    (restoreEntries f i es d).manifest = d.manifest := by
  induction es generalizing i d with
  | nil => rfl
  | cons e es ih => exact ih.trans (restoreEntry_manifest e)

/-- A path that has been put back has no copy any more. -/
theorem gone_restoreEntry (e : RekeyEntry) (h : path ∈ d.restored → d.backups path = none)
    (hmem : path ∈ (d.restoreEntry f i e).restored) :
    (d.restoreEntry f i e).backups path = none := by
  by_cases hb : d.backups path = none
  · exact (files_restoreEntry e hb).1
  · have hren := ((restored_restoreEntry e).mp hmem).resolve_left (fun hin => hb (h hin))
    exact (renamed_restoreEntry hren.1 hb).1

theorem gone_restoreEntries (es : List RekeyEntry) (h : path ∈ d.restored → d.backups path = none)
    (hmem : path ∈ (restoreEntries f i es d).restored) :
    (restoreEntries f i es d).backups path = none := by
  induction es generalizing i d with
  | nil => exact h hmem
  | cons e es ih => exact ih (gone_restoreEntry e h) hmem

/-- A copy that is there is put back at the first of its entries where nothing fails. -/
theorem restored_restoreEntries (es : List RekeyEntry) (hnew : path ∉ d.restored)
    (hb : d.backups path ≠ none) :
    path ∈ (restoreEntries f i es d).restored ↔ ∃ x ∈ es.zipIdx i, Renamed f path x := by
  induction es generalizing i d with
  | nil => simp [restoreEntries, hnew]
  | cons e es ih =>
      rw [List.zipIdx_cons, List.exists_mem_cons_iff, restoreEntries]
      by_cases hnow : path ∈ (d.restoreEntry f i e).restored
      · have hren := (((restored_restoreEntry e).mp hnow).resolve_left hnew).1
        exact iff_of_true (restored_mono es hnow) (.inl hren)
      · have hb' : (d.restoreEntry f i e).backups path ≠ none := by
          rw [backups_restoreEntry e hnow]
          exact hb
        have hnot : ¬ Renamed f path (e, i) := fun hren =>
          hnow ((restored_restoreEntry e).mpr (.inr ⟨hren, hb⟩))
        rw [ih hnow hb', or_iff_right hnot]

/-- Once the copy is gone, only an entry that removes the file changes it. -/
theorem files_restoreEntries (es : List RekeyEntry) (hb : d.backups path = none) :
    (restoreEntries f i es d).files path =
      if ∃ x ∈ es.zipIdx i, Removed f path x then none else d.files path := by
  induction es generalizing i d with
  | nil => simp [restoreEntries]
  | cons e es ih =>
      obtain ⟨hb', hfile⟩ := files_restoreEntry (f := f) (i := i) e hb
      rw [restoreEntries, ih hb', hfile]
      simp only [List.zipIdx_cons, List.exists_mem_cons_iff]
      by_cases hlater : ∃ x ∈ es.zipIdx (i + 1), Removed f path x
      · rw [if_pos hlater, if_pos (.inr hlater)]
      · rw [if_neg hlater]
        simp only [or_iff_left hlater]

/-- The file holds the copy's bytes if nothing removes it after the copy was put back. The cases are
those of the first entry: it puts the copy back, or the copy is where it was. -/
theorem files_of_restored (es : List RekeyEntry) (hnew : path ∉ d.restored)
    (hb : d.backups path ≠ none) :
    (path ∈ (restoreEntries f i es d).restored ∧
        (restoreEntries f i es d).files path = d.backups path) ↔
      (∃ x ∈ es.zipIdx i, Renamed f path x) ∧
        (es.zipIdx i).Pairwise fun x y => Renamed f path x → ¬ Removed f path y := by
  induction es generalizing i d with
  | nil => simp [restoreEntries, hnew]
  | cons e es ih =>
      rw [List.zipIdx_cons, List.exists_mem_cons_iff, List.pairwise_cons, restoreEntries]
      by_cases hren : Renamed f path (e, i)
      · obtain ⟨hgone, hfile⟩ := renamed_restoreEntry hren hb
        have hmem := (restored_restoreEntry (d := d) e).mpr (.inr ⟨hren, hb⟩)
        rw [files_restoreEntries es hgone, hfile]
        by_cases hlater : ∃ x ∈ es.zipIdx (i + 1), Removed f path x
        · rw [if_pos hlater]
          obtain ⟨x, hx, hremoved⟩ := hlater
          exact iff_of_false (fun h => hb h.2.symm) (fun h => h.2.1 x hx hren hremoved)
        · rw [if_neg hlater]
          have hnone : ∀ y ∈ es.zipIdx (i + 1), ¬ Removed f path y :=
            fun y hy hremoved => hlater ⟨y, hy, hremoved⟩
          refine iff_of_true ⟨restored_mono es hmem, rfl⟩
            ⟨.inl hren, fun y hy _ => hnone y hy, ?_⟩
          exact List.pairwise_of_forall_mem_list (fun _ _ y hy _ => hnone y hy)
      · have hnot : path ∉ (d.restoreEntry f i e).restored := fun hmem =>
          ((restored_restoreEntry e).mp hmem).elim hnew (fun h => hren h.1)
        have hsame := backups_restoreEntry e hnot
        have hfirst : ∀ y ∈ es.zipIdx (i + 1), Renamed f path (e, i) → ¬ Removed f path y :=
          fun _ _ h => absurd h hren
        rw [← hsame, ih hnot (by rw [hsame]; exact hb), or_iff_right hren,
          and_iff_right hfirst]

/-! ## The two calls -/

theorem restored_restoreFromManifest (hnew : d.restored = []) (hb : d.backups path ≠ none) :
    path ∈ (d.restoreFromManifest f).restored ↔ d.Renames f path := by
  have hnot : path ∉ d.restored := by rw [hnew]; exact List.not_mem_nil
  unfold restoreFromManifest Renames
  split
  · rename_i hread
    refine iff_of_false hnot (fun h => ?_)
    rw [h.1] at hread
    cases hread
  · rename_i hread
    cases hm : d.manifest with
    | absent => exact iff_of_false hnot (fun ⟨_, m, h, _⟩ => by cases h)
    | garbage => exact iff_of_false hnot (fun ⟨_, m, h, _⟩ => by cases h)
    | holds m =>
        dsimp only
        rw [restored_restoreEntries _ hnot hb]
        constructor
        · exact fun h => ⟨Bool.eq_false_iff.mpr hread, m, rfl, h⟩
        · rintro ⟨-, m', hm', h⟩
          cases hm'
          exact h

/-- The copy is put back and the file holds it exactly where the copy is put back for good. -/
theorem files_restoreFromManifest (hnew : d.restored = []) (hb : d.backups path ≠ none) :
    (path ∈ (d.restoreFromManifest f).restored ∧
      (d.restoreFromManifest f).files path = d.backups path) ↔ d.PutsBack f path := by
  have hnot : path ∉ d.restored := by rw [hnew]; exact List.not_mem_nil
  by_cases hren : d.Renames f path
  · obtain ⟨hread, m, hm, hx⟩ := hren
    have hrun : d.restoreFromManifest f = restoreEntries f 0 m.entries.reverse d := by
      simp only [restoreFromManifest, hread, hm, Bool.false_eq_true, if_false]
    rw [hrun, files_of_restored _ hnot hb]
    constructor
    · rintro ⟨-, hstays⟩
      refine ⟨⟨hread, m, hm, hx⟩, fun m' hm' => ?_⟩
      cases hm.symm.trans hm'
      exact hstays
    · exact fun h => ⟨hx, h.2 m hm⟩
  · exact iff_of_false (fun h => hren ((restored_restoreFromManifest hnew hb).mp h.1))
      (fun h => hren h.1)

theorem restoreFromManifest_manifest : (d.restoreFromManifest f).manifest = d.manifest := by
  unfold restoreFromManifest
  split
  · rfl
  · split
    · exact restoreEntries_manifest _
    · rfl

theorem backups_restoreFromManifest (h : path ∉ (d.restoreFromManifest f).restored) :
    (d.restoreFromManifest f).backups path = d.backups path := by
  unfold restoreFromManifest at h ⊢
  split at h
  · rename_i hread
    rw [if_pos hread]
  · rename_i hread
    rw [if_neg hread]
    split
    · rename_i m hm
      rw [hm] at h
      exact backups_restoreEntries _ h
    · rfl

theorem gone_restoreFromManifest (hnew : d.restored = [])
    (h : path ∈ (d.restoreFromManifest f).restored) :
    (d.restoreFromManifest f).backups path = none := by
  have hnot : path ∉ d.restored := by rw [hnew]; exact List.not_mem_nil
  unfold restoreFromManifest at h ⊢
  split at h
  · exact absurd h hnot
  · rename_i hread
    rw [if_neg hread]
    cases hm : d.manifest with
    | absent => rw [hm] at h; exact absurd h hnot
    | garbage => rw [hm] at h; exact absurd h hnot
    | holds m =>
        rw [hm] at h
        exact gone_restoreEntries _ (fun hin => absurd hin hnot) h

/-- What the removal leaves of a copy that is recorded. -/
theorem removeStaging_keeps {m : RekeyManifest} (hm : d.manifest = .holds m)
    (hb : d.backups path ≠ none) :
    ((d.removeStaging f).backups path = d.backups path
      ∧ (d.removeStaging f).manifest = d.manifest) ↔ Leaves f path := by
  unfold removeStaging Leaves
  cases hr : f.removeDir with
  | none => simp [Ne.symm hb]
  | some left =>
      cases hlm : left.manifest <;> cases hlb : left.backup path <;>
        simp [hlm, hlb, hm, Ne.symm hb]

theorem removeStaging_restored : (d.removeStaging f).restored = d.restored := by
  unfold removeStaging
  split <;> rfl

theorem removeStaging_gone (h : d.backups path = none) :
    (d.removeStaging f).backups path = none := by
  unfold removeStaging
  split
  · rfl
  · dsimp only
    split
    · exact h
    · rfl

theorem removeStaging_files : (d.removeStaging f).files = d.files := by
  unfold removeStaging
  split <;> rfl

/-- The copies go back first and the directory goes after. -/
theorem undo_keeps (h : d.Owed path) (hnew : d.restored = []) :
    (path ∈ ((d.restoreFromManifest f).removeStaging f).restored
        ∧ ((d.restoreFromManifest f).removeStaging f).files path = d.backups path ∨
      ((d.restoreFromManifest f).removeStaging f).backups path = d.backups path
        ∧ ((d.restoreFromManifest f).removeStaging f).manifest = d.manifest)
      ↔ d.PutsBack f path ∨ ¬ d.Renames f path ∧ Leaves f path := by
  obtain ⟨m, hm, -, -, hb⟩ := h
  rw [removeStaging_restored, removeStaging_files, files_restoreFromManifest hnew hb]
  by_cases hren : d.Renames f path
  · -- the copy is gone from the directory, so only the file can be right
    have hgone : (d.restoreFromManifest f).backups path = none :=
      gone_restoreFromManifest hnew ((restored_restoreFromManifest hnew hb).mpr hren)
    have hnone := removeStaging_gone (f := f) hgone
    refine or_congr_right (iff_of_false (fun h => hb ?_) (fun h => h.1 hren))
    rw [← h.1, hnone]
  · have hnot := fun h => hren ((restored_restoreFromManifest (f := f) hnew hb).mp h)
    have hsame := backups_restoreFromManifest hnot
    have hkeeps : ((d.restoreFromManifest f).removeStaging f).backups path
        = (d.restoreFromManifest f).backups path
          ∧ ((d.restoreFromManifest f).removeStaging f).manifest
            = (d.restoreFromManifest f).manifest ↔ Leaves f path :=
      removeStaging_keeps (restoreFromManifest_manifest.trans hm) (by rw [hsame]; exact hb)
    rw [hsame, restoreFromManifest_manifest] at hkeeps
    rw [hkeeps, and_iff_right hren]

/-- What was put back in a call before does not count. -/
theorem owed_fresh : Owed { d with restored := [] } path ↔ d.Owed path := Iff.rfl

theorem abort_keeps (pending : Bool) :
    d.KeepsBackups (d.rekeyAbort f pending) ↔
      (pending = true → ∀ path, d.Owed path →
        d.PutsBack f path ∨ ¬ d.Renames f path ∧ Leaves f path) := by
  cases pending with
  | false => exact iff_of_true (fun _ _ => .inr ⟨rfl, rfl⟩) (fun h => by cases h)
  | true =>
      have hrun : d.rekeyAbort f true =
          (restoreFromManifest f { d with restored := [] }).removeStaging f := rfl
      rw [hrun]
      exact ⟨fun h _ path ho => (undo_keeps (owed_fresh.mpr ho) rfl).mp (h path ho),
        fun h path ho => (undo_keeps (owed_fresh.mpr ho) rfl).mpr (h rfl path ho)⟩

/-- What the recovery does where there is a manifest. -/
theorem recover_eq {m : RekeyManifest} (hm : d.manifest = .holds m) (hstaging : d.staging = true) :
    (d.recoverPendingRekey f).1 =
      if f.statManifest = true then removeStaging f { d with restored := [] }
      else if f.readManifest = true ∨ f.readVault = true ∨ d.vault = .garbage then
        { d with restored := [] }
      else if d.Committed m then removeStaging f { d with restored := [] }
      else (restoreFromManifest f { d with restored := [] }).removeStaging f := by
  obtain ⟨files, staging, manifest, backups, vault, restored⟩ := d
  cases hm
  cases hstaging
  unfold recoverPendingRekey Committed
  dsimp only [OnDisk.isAbsent, OnDisk.value?]
  cases f.statManifest
  case true => rfl
  cases f.readManifest
  case true => rfl
  cases f.readVault
  case true => rfl
  cases vault with
  | absent => rfl
  | garbage => rfl
  | holds salt =>
      by_cases hsalt : salt = m.newSalt
      · simp [hsalt]
      · simp [hsalt]

/-- Nothing is put back, and what is left is what the removal leaves. -/
theorem remove_keeps (h : d.Owed path) :
    (path ∈ (removeStaging f { d with restored := [] }).restored
        ∧ (removeStaging f { d with restored := [] }).files path = d.backups path ∨
      (removeStaging f { d with restored := [] }).backups path = d.backups path
        ∧ (removeStaging f { d with restored := [] }).manifest = d.manifest) ↔ Leaves f path := by
  obtain ⟨m, hm, -, -, hb⟩ := h
  rw [removeStaging_restored, ← removeStaging_keeps (d := { d with restored := [] }) hm hb]
  exact or_iff_right (fun hmem => List.not_mem_nil hmem.1)

theorem recover_keeps :
    d.KeepsBackups (d.recoverPendingRekey f).1 ↔
      (¬ d.StopsEarly f → ∀ path, d.Owed path →
        f.statManifest = false ∧ d.PutsBack f path ∨
          (f.statManifest = false → ¬ d.Renames f path) ∧ Leaves f path) := by
  have hstay : KeepsBackups d { d with restored := [] } := fun _ _ => .inr ⟨rfl, rfl⟩
  by_cases hstaging : d.staging = true
  case neg =>
    have heq : (d.recoverPendingRekey f).1 = { d with restored := [] } := by
      unfold recoverPendingRekey
      dsimp only
      rw [if_pos hstaging]
    rw [heq]
    exact iff_of_true hstay (fun h => absurd (.inl (Bool.eq_false_iff.mpr hstaging)) h)
  by_cases howes : ∃ path, d.Owed path
  case neg =>
    exact iff_of_true (fun path ho => absurd ⟨path, ho⟩ howes) (fun _ path ho => absurd ⟨path, ho⟩ howes)
  obtain ⟨m, hm, hnot, -⟩ := howes.choose_spec
  rw [recover_eq hm hstaging]
  have hgo : d.StopsEarly f → f.statManifest = false ∧
      (f.readManifest = true ∨ f.readVault = true ∨ d.vault = .garbage) :=
    fun h => h.resolve_left (by rw [hstaging]; simp)
  by_cases hstat : f.statManifest = true
  · -- the manifest is taken for missing
    rw [if_pos hstat]
    have hstops : ¬ d.StopsEarly f := fun h => by
      rw [(hgo h).1] at hstat
      cases hstat
    constructor
    · exact fun h _ path ho =>
        .inr ⟨fun hseen => absurd hstat (by simp [hseen]), (remove_keeps ho).mp (h path ho)⟩
    · intro h path ho
      refine (remove_keeps ho).mpr ((h hstops path ho).resolve_left (fun hren => ?_)).2
      rw [hren.1] at hstat
      cases hstat
  · have hseen := Bool.eq_false_iff.mpr hstat
    rw [if_neg hstat]
    by_cases hearly : f.readManifest = true ∨ f.readVault = true ∨ d.vault = .garbage
    · rw [if_pos hearly]
      exact iff_of_true hstay (fun h => absurd (.inr ⟨hseen, hearly⟩) h)
    · rw [if_neg hearly, if_neg hnot]
      have hstops : ¬ d.StopsEarly f := fun h => hearly (hgo h).2
      constructor
      · intro h _ path ho
        exact ((undo_keeps (owed_fresh.mpr ho) rfl).mp (h path ho)).imp
          (fun hput => ⟨hseen, hput⟩) (fun hleft => ⟨fun _ => hleft.1, hleft.2⟩)
      · intro h path ho
        exact (undo_keeps (owed_fresh.mpr ho) rfl).mpr ((h hstops path ho).imp
          And.right (fun hleft => ⟨hleft.1 hseen, hleft.2⟩))

/-- **When no copy is lost.** A call keeps every copy it owes until its file holds it again if and
only if each of them is renamed without a fault and the file not removed after that, or none of its
renames succeeds and the removal of the directory fails before it comes to the copy and to the
manifest. -/
theorem keeps_backups_iff (f : FileFaults) (d : RekeyDisk) (pending : Bool) :
    (d.KeepsBackups (d.rekeyAbort f pending) ↔
      (pending = true → ∀ path, d.Owed path →
        d.PutsBack f path ∨ ¬ d.Renames f path ∧ Leaves f path))
    ∧ (d.KeepsBackups (d.recoverPendingRekey f).1 ↔
      (¬ d.StopsEarly f → ∀ path, d.Owed path →
        f.statManifest = false ∧ d.PutsBack f path ∨
          (f.statManifest = false → ¬ d.Renames f path) ∧ Leaves f path)) :=
  ⟨abort_keeps pending, recover_keeps⟩

/-! ## One rename that fails -/

section Example

/-- A rekey that has rewritten one file. -/
def oneRekeyed : RekeyDisk where
  files path := if path = "contacts" then some [2] else none
  staging := true
  manifest := .holds ⟨[9], [⟨"contacts", true⟩]⟩
  backups path := if path = "contacts" then some [1] else none
  vault := .holds [8]
  restored := []

/-- The rename of the one copy fails, and nothing else. -/
def renameFault : FileFaults where
  statManifest := false
  readManifest := false
  readVault := false
  rereadManifest := false
  statBackup _ := false
  restore _ := true
  removeDir := none

/-- The copy is gone, and the file is still under the keys that are given up. -/
theorem backup_lost :
    ((oneRekeyed.rekeyAbort renameFault true).backups "contacts" = none
      ∧ (oneRekeyed.rekeyAbort renameFault true).files "contacts" = some [2]
      ∧ ¬ oneRekeyed.KeepsBackups (oneRekeyed.rekeyAbort renameFault true))
    ∧ (oneRekeyed.recoverPendingRekey renameFault).1.backups "contacts" = none
    ∧ (oneRekeyed.recoverPendingRekey renameFault).1.files "contacts" = some [2]
    ∧ ¬ oneRekeyed.KeepsBackups (oneRekeyed.recoverPendingRekey renameFault).1 := by
  have howed : oneRekeyed.Owed "contacts" :=
    ⟨⟨[9], [⟨"contacts", true⟩]⟩, rfl, by decide, List.mem_singleton_self _, by decide⟩
  have habort : (oneRekeyed.rekeyAbort renameFault true).restored = [] := by decide +kernel
  have hrecover : (oneRekeyed.recoverPendingRekey renameFault).1.restored = [] := by decide +kernel
  refine ⟨⟨by decide +kernel, by decide +kernel, fun h => ?_⟩, by decide +kernel, by decide +kernel,
    fun h => ?_⟩
  · rcases h "contacts" howed with ⟨hr, -⟩ | ⟨hb, -⟩
    · rw [habort] at hr
      exact absurd hr List.not_mem_nil
    · exact absurd hb (by decide +kernel)
  · rcases h "contacts" howed with ⟨hr, -⟩ | ⟨hb, -⟩
    · rw [hrecover] at hr
      exact absurd hr List.not_mem_nil
    · exact absurd hb (by decide +kernel)

end Example

end RekeyDisk

end Paranoia
