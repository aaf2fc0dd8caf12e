import Mathlib.Data.List.Dedup
import Paranoia.Client.PinChange

/-!
# A change of the PIN reaches every file

`listed_nodup`: no file is handed to the vault twice. A copy is made of each before it is touched,
so that a change that fails leaves every file as it was (`Rekeyed.readable_abort`), and one that is
committed has brought every file it was to bring (`Rekeyed.sound_commit`). Both rest on nobody
else writing to a file that the change has come to already, and the latter on every file being
listed (`pin_change_reaches`).

Neither is seen to: the listing names the files of a profile one by one and leaves out two that
the client writes, it passes over an attachment whose message has an id with a dot in front, and
nothing holds back a worker that has encrypted with the old keys (`pin_change_misses`).
-/

namespace Paranoia

namespace Paths

variable {files : List DataPath} {path : DataPath} {profileId : String}

theorem eq_of_isAttachment (h : isAttachment profileId path = true) :
    ∃ name, path = ["profiles", profileId, "attachment-cache", name] := by
  unfold isAttachment at h
  split at h
  · obtain ⟨rfl, rfl, rfl, -⟩ := of_decide_eq_true h
    exact ⟨_, rfl⟩
  · cases h

/-- A profile has two JSON files that are listed. -/
private theorem eq_of_mem_json
    (h : path ∈ [profileClient profileId, profileDialogs profileId].filter (· ∈ files)) :
    path = profileClient profileId ∨ path = profileDialogs profileId := by
  simpa using (List.mem_filter.mp h).1

private theorem nodup_json {ids : List String} (hids : ids.Nodup) :
    (ids.flatMap fun id => [profileClient id, profileDialogs id].filter (· ∈ files)).Nodup := by
  refine List.nodup_flatMap.mpr ⟨fun id _ => ?_, hids.imp fun {a b} hab => ?_⟩
  · refine List.Nodup.filter _ ?_
    simp [profileClient, profileDialogs]
  · intro path ha hb
    rcases eq_of_mem_json ha with rfl | rfl <;> rcases eq_of_mem_json hb with h | h <;>
      simp_all [profileClient, profileDialogs]

private theorem nodup_attachments {ids : List String} (hids : ids.Nodup) (hfiles : files.Nodup) :
    (ids.flatMap fun id => files.filter (isAttachment id)).Nodup := by
  refine List.nodup_flatMap.mpr ⟨fun id _ => hfiles.filter _, hids.imp fun {a b} hab => ?_⟩
  intro path ha hb
  obtain ⟨name, rfl⟩ := eq_of_isAttachment (List.mem_filter.mp ha).2
  obtain ⟨name', h⟩ := eq_of_isAttachment (List.mem_filter.mp hb).2
  exact hab (by injection h with _ h; injection h)

/-- Each file is listed once. -/
theorem listed_nodup (hfiles : files.Nodup) : (listed files).Nodup := by
  have hids := (files.filterMap profileOf).nodup_dedup.filter (¬ isHidden ·)
  unfold listed
  dsimp only
  refine List.nodup_append.mpr ⟨List.nodup_append.mpr ⟨List.nodup_append.mpr ⟨?_,
    nodup_json hids, ?_⟩, ?_, ?_⟩, nodup_attachments hids hfiles, ?_⟩
  · exact List.Nodup.filter _ (by decide)
  · -- the files at the top have no directory
    rintro path htop _ hjson rfl
    obtain ⟨id, -, hid⟩ := List.mem_flatMap.mp hjson
    have hlength : path.length = 3 := by rcases eq_of_mem_json hid with rfl | rfl <;> rfl
    have htop := (List.mem_filter.mp htop).1
    simp only [List.mem_cons, List.not_mem_nil, or_false] at htop
    rcases htop with rfl | rfl | rfl | rfl <;> cases hlength
  · refine List.Nodup.filter _ (hids.map fun a b h => ?_)
    injection h with _ h
    injection h
  · rintro path hl _ hdb rfl
    obtain ⟨id, -, rfl⟩ := List.mem_map.mp (List.mem_filter.mp hdb).1
    rcases List.mem_append.mp hl with htop | hjson
    · have htop := (List.mem_filter.mp htop).1
      simp [profileDb, profilesManifest, deviceKey, pendingRegistrationKey, admins] at htop
    · obtain ⟨id', -, hid⟩ := List.mem_flatMap.mp hjson
      rcases eq_of_mem_json hid with h | h <;>
        simp [profileDb, profileClient, profileDialogs] at h
  · rintro path hl _ hatt rfl
    obtain ⟨id, -, hid⟩ := List.mem_flatMap.mp hatt
    obtain ⟨name, rfl⟩ := eq_of_isAttachment (List.mem_filter.mp hid).2
    rcases List.mem_append.mp hl with hl | hdb
    · rcases List.mem_append.mp hl with htop | hjson
      · have htop := (List.mem_filter.mp htop).1
        simp [profilesManifest, deviceKey, pendingRegistrationKey, admins] at htop
      · obtain ⟨id', -, hid⟩ := List.mem_flatMap.mp hjson
        rcases eq_of_mem_json hid with h | h <;> simp [profileClient, profileDialogs] at h
    · obtain ⟨id', -, h⟩ := List.mem_map.mp (List.mem_filter.mp hdb).1
      simp [profileDb] at h

end Paths

variable {κ γ : Type}

/-- The file that the vault is at. -/
def RekeyStage.path? : RekeyStage γ → Option DataPath
  | .next => none
  | .staged path => some path
  | .opened path _ => some path

namespace PinWorld

variable {w w' : PinWorld κ γ} {r : PinRekey κ γ} {path : DataPath} {content : γ}

/-- What is on disk is what was last written there. -/
def Kept (w : PinWorld κ γ) : Prop := ∀ f ∈ w.files, w.last f.path = some f.content

theorem readable_iff [DecidableEq κ] : w.Readable ↔ w.Kept ∧ ∀ f ∈ w.files, f.master = w.active := by
  simp only [Readable, Kept, decrypt]
  constructor
  · intro h
    refine ⟨fun f hf => (h f hf).2, fun f hf => ?_⟩
    by_contra hne
    simpa [hne] using (h f hf).1
  · exact fun h f hf => ⟨if_pos (h.2 f hf), h.1 f hf⟩

/-- A change has brought the files it is through with under the new keys and holds what they were
before. -/
structure Rekeyed (w : PinWorld κ γ) (r : PinRekey κ γ) : Prop where
  nodup : r.todo.Nodup
  through : ∀ p ∈ r.stage.path?, p ∉ r.todo
  kept : w.Kept
  before : ∀ f ∈ w.files, f.path ∈ r.todo ∨ r.stage.path? = some f.path → f.master = w.active
  after : ∀ f ∈ w.files, f.path ∉ r.todo → r.stage.path? ≠ some f.path → f.master = r.master
  opened : ∀ path content, r.stage = .opened path content → w.last path = some content
  copied : ∀ f ∈ w.files, f.path ∉ r.todo → ∃ b ∈ r.backups, b.path = f.path
  copiedFirst : ∀ p ∈ r.stage.path?, ∃ b ∈ r.backups, b.path = p
  untouched : ∀ b ∈ r.backups, b.path ∉ r.todo
  backups : ∀ b ∈ r.backups, ∀ f ∈ b.file,
    f.path = b.path ∧ f.master = w.active ∧ w.last f.path = some f.content

/-- What holds of the files at each point of a change. -/
def Sound [DecidableEq κ] (w : PinWorld κ γ) : Prop :=
  match w.change with
  | .idle => w.Readable
  | .listed todo => w.Readable ∧ todo.Nodup ∧ ∀ f ∈ w.files, f.path ∈ todo
  | .verified todo => w.Readable ∧ todo.Nodup ∧ ∀ f ∈ w.files, f.path ∈ todo
  | .rekeying r => w.Rekeyed r

/-! ## Files come and go -/

theorem file_some {f : SealedFile κ γ} (h : w.file path = some f) : f ∈ w.files ∧ f.path = path := by
  obtain ⟨hf, hp⟩ := Table.find?_some h
  exact ⟨hf, of_decide_eq_true hp⟩

/-- A file put in place is the last one written there. -/
theorem kept_put {f : SealedFile κ γ} (h : w.Kept) :
    { w with files := w.files.insertOrReplace f
             last := Function.update w.last f.path (some f.content) }.Kept := by
  intro g hg
  rcases Table.mem_insertOrReplace.mp hg with ⟨hg, hne⟩ | rfl
  · exact (Function.update_of_ne hne ..).trans (h g hg)
  · exact Function.update_self ..

theorem Rekeyed.land {f : SealedFile κ γ} (h : w.Rekeyed r) (hmaster : f.master = w.active)
    (htodo : f.path ∈ r.todo) (writes : List (SealedFile κ γ)) :
    { w with files := w.files.insertOrReplace f
             writes := writes
             last := Function.update w.last f.path (some f.content) }.Rekeyed r where
  nodup := h.nodup
  through := h.through
  kept := kept_put h.kept
  before g hg hat := by
    rcases Table.mem_insertOrReplace.mp hg with ⟨hg, -⟩ | rfl
    · exact h.before g hg hat
    · exact hmaster
  after g hg hn hat := by
    rcases Table.mem_insertOrReplace.mp hg with ⟨hg, -⟩ | rfl
    · exact h.after g hg hn hat
    · exact absurd htodo hn
  opened p c hp := by
    have hne : p ≠ f.path := fun he => h.through p (by rw [hp]; rfl) (he ▸ htodo)
    exact (Function.update_of_ne hne ..).trans (h.opened p c hp)
  copied g hg hn := by
    rcases Table.mem_insertOrReplace.mp hg with ⟨hg, -⟩ | rfl
    · exact h.copied g hg hn
    · exact absurd htodo hn
  copiedFirst := h.copiedFirst
  untouched := h.untouched
  backups b hb g hg := by
    obtain ⟨hpath, hactive, hlast⟩ := h.backups b hb g hg
    have hne : g.path ≠ f.path := fun he => h.untouched b hb (hpath ▸ he ▸ htodo)
    exact ⟨hpath, hactive, (Function.update_of_ne hne ..).trans hlast⟩

variable [DecidableEq κ]

theorem sound_land {i : Nat} (h : w.Sound) (hok : w.Undisturbed (.land i))
    (hland : w.land i = some w') : w'.Sound := by
  obtain ⟨f, hf, rfl⟩ := Option.map_eq_some_iff.mp hland
  obtain ⟨hmaster, hahead⟩ := hok f hf
  have hput (hr : w.Readable) : { w with
      files := w.files.insertOrReplace f
      last := Function.update w.last f.path (some f.content) }.Readable := by
    obtain ⟨hkept, hall⟩ := readable_iff.mp hr
    refine readable_iff.mpr ⟨kept_put hkept, fun g hg => ?_⟩
    rcases Table.mem_insertOrReplace.mp hg with ⟨hg, -⟩ | rfl
    · exact hall g hg
    · exact hmaster
  have hcovers {todo : List DataPath} (hall : ∀ g ∈ w.files, g.path ∈ todo)
      (hin : f.path ∈ todo) : ∀ g ∈ w.files.insertOrReplace f, g.path ∈ todo := by
    intro g hg
    rcases Table.mem_insertOrReplace.mp hg with ⟨hg, -⟩ | rfl
    · exact hall g hg
    · exact hin
  unfold Sound at h ⊢
  dsimp only
  unfold Ahead at hahead
  cases hc : w.change with
  | idle =>
      rw [hc] at h
      exact hput h
  | listed todo | verified todo =>
      rw [hc] at h hahead
      exact ⟨hput h.1, h.2.1, hcovers h.2.2 hahead⟩
  | rekeying r =>
      rw [hc] at h hahead
      exact { h.land hmaster hahead (w.writes.eraseIdx i) with }

/-- What is taken away need not open. -/
theorem sound_remove (h : w.Sound) :
    { w with files := w.files.deleteWhere fun f => f.path = path }.Sound := by
  have hsub : ∀ f ∈ w.files.deleteWhere (fun f => decide (f.path = path)), f ∈ w.files :=
    fun f hf => (Table.mem_deleteWhere.mp hf).1
  unfold Sound at h ⊢
  dsimp only
  cases hc : w.change with
  | idle =>
      rw [hc] at h
      exact fun f hf => h f (hsub f hf)
  | listed todo | verified todo =>
      rw [hc] at h
      exact ⟨fun f hf => h.1 f (hsub f hf), h.2.1, fun f hf => h.2.2 f (hsub f hf)⟩
  | rekeying r =>
      rw [hc] at h
      exact
        { h with
          kept := fun f hf => h.kept f (hsub f hf)
          before := fun f hf => h.before f (hsub f hf)
          after := fun f hf => h.after f (hsub f hf)
          copied := fun f hf => h.copied f (hsub f hf) }

/-! ## The vault works on a file -/

theorem Rekeyed.begin {todo : List DataPath} (hr : w.Readable) (hnodup : todo.Nodup)
    (hall : ∀ f ∈ w.files, f.path ∈ todo) (master : κ) :
    w.Rekeyed ⟨master, todo, .next, .empty⟩ where
  nodup := hnodup
  through := nofun
  kept := (readable_iff.mp hr).1
  before f hf _ := (readable_iff.mp hr).2 f hf
  after f hf hn _ := absurd (hall f hf) hn
  opened := nofun
  copied f hf hn := absurd (hall f hf) hn
  copiedFirst := nofun
  untouched _ hb := absurd hb Table.not_mem_empty
  backups _ hb := absurd hb Table.not_mem_empty

theorem Rekeyed.stageBackup (h : w.Rekeyed r) (hs : w.stageBackup r = some w') : w'.Sound := by
  unfold PinWorld.stageBackup at hs
  split at hs
  · rename_i path todo hstage htodo
    have hnodup := List.nodup_cons.mp (htodo ▸ h.nodup)
    have hfresh : ∀ b ∈ r.backups, b.path ≠ path ∧ b.path ∉ todo := by
      intro b hb
      have hb' := h.untouched b hb
      rw [htodo] at hb'
      exact ⟨fun he => hb' (he ▸ List.mem_cons_self), fun hm => hb' (List.mem_cons_of_mem _ hm)⟩
    have hactive : ∀ f ∈ w.files, f.path ∈ todo ∨ f.path = path → f.master = w.active := by
      rintro f hf hat
      refine h.before f hf (.inl ?_)
      rw [htodo]
      rcases hat with hat | rfl
      · exact List.mem_cons_of_mem _ hat
      · exact List.mem_cons_self
    have hcopied : ∀ f ∈ w.files, f.path ∉ todo → f.path = path ∨
        ∃ b ∈ r.backups, b.path = f.path := by
      intro f hf hn
      by_cases he : f.path = path
      · exact .inl he
      · refine .inr (h.copied f hf ?_)
        rw [htodo]
        exact fun hm => (List.mem_cons.mp hm).elim he hn
    have hafter : ∀ f ∈ w.files, f.path ∉ todo → some path ≠ some f.path → f.master = r.master := by
      intro f hf hn hne
      refine h.after f hf ?_ (by rw [hstage]; exact nofun)
      rw [htodo]
      exact fun hm => (List.mem_cons.mp hm).elim (fun he => hne (congrArg some he.symm)) hn
    dsimp only at hs
    -- the copies, with that of this path
    have hstaged (backups : Table (StagedBackup κ γ) StagedBackup.path)
        (hold : ∀ b ∈ r.backups, b ∈ backups)
        (hnew : ∀ b ∈ backups, b ∈ r.backups ∨ b = ⟨path, w.file path⟩)
        (hthere : ∃ b ∈ backups, b.path = path) :
        (w.rekey { r with todo, stage := .staged path, backups }).Sound :=
      { nodup := hnodup.2
        through := by
          rintro p ⟨⟩
          exact hnodup.1
        kept := h.kept
        before := fun f hf hat => hactive f hf (hat.imp_right fun he => (Option.some.inj he).symm)
        after := hafter
        opened := nofun
        copied := by
          intro f hf hn
          rcases hcopied f hf hn with he | ⟨b, hb, he⟩
          · obtain ⟨b, hb, hpath⟩ := hthere
            exact ⟨b, hb, hpath.trans he.symm⟩
          · exact ⟨b, hold b hb, he⟩
        copiedFirst := by
          rintro p ⟨⟩
          exact hthere
        untouched := by
          intro b hb
          rcases hnew b hb with hb | rfl
          · exact (hfresh b hb).2
          · exact hnodup.1
        backups := by
          intro b hb f hf
          rcases hnew b hb with hb | rfl
          · exact h.backups b hb f hf
          · obtain ⟨hin, hpath⟩ := file_some hf
            exact ⟨hpath, hactive f hin (.inr hpath), h.kept f hin⟩ }
    cases hfile : w.file path with
    | some f =>
        rw [hfile] at hs
        cases hs
        refine hstaged _ (fun b hb => ?_) (fun b hb => ?_)
          ⟨_, Table.mem_insertOrReplace.mpr (.inr rfl), rfl⟩
        · exact Table.mem_insertOrReplace.mpr (.inl ⟨hb, (hfresh b hb).1⟩)
        · rw [hfile]
          exact (Table.mem_insertOrReplace.mp hb).imp_left And.left
    | none =>
        rw [hfile] at hs
        cases hs
        refine hstaged _ (fun b hb => Table.mem_insertOrIgnore_of_mem hb) (fun b hb => ?_)
          (Table.exists_mem_insertOrIgnore _ _)
        rw [hfile]
        exact (Table.mem_insertOrIgnore.mp hb).imp_right And.left
  · cases hs

/-! ## A change that fails -/

omit [DecidableEq κ] in
theorem mem_restore {files : Table (SealedFile κ γ) SealedFile.path} {b : StagedBackup κ γ}
    {g : SealedFile κ γ} (hb : ∀ f ∈ b.file, f.path = b.path) (hg : g ∈ restore files b) :
    (g ∈ files ∧ b.path ≠ g.path) ∨ b.file = some g := by
  unfold restore at hg
  cases hfile : b.file with
  | some f =>
      rw [hfile] at hg
      rcases Table.mem_insertOrReplace.mp hg with ⟨hg, hne⟩ | rfl
      · exact .inl ⟨hg, fun he => hne (he ▸ hb f hfile).symm⟩
      · exact .inr rfl
  | none =>
      rw [hfile] at hg
      obtain ⟨hg, hne⟩ := Table.mem_deleteWhere.mp hg
      exact .inl ⟨hg, fun he => of_decide_eq_false hne he.symm⟩

omit [DecidableEq κ] in
/-- A file is either one of the backups or was not backed up. -/
theorem mem_restored {backups : List (StagedBackup κ γ)} {g : SealedFile κ γ}
    (hb : ∀ b ∈ backups, ∀ f ∈ b.file, f.path = b.path) :
    ∀ {files : Table (SealedFile κ γ) SealedFile.path}, g ∈ backups.foldl restore files →
      (g ∈ files ∧ ∀ b ∈ backups, b.path ≠ g.path) ∨ ∃ b ∈ backups, b.file = some g := by
  induction backups with
  | nil => exact fun hg => .inl ⟨hg, nofun⟩
  | cons b backups ih =>
      intro files hg
      rcases ih (fun b' hb' => hb b' (List.mem_cons_of_mem _ hb')) hg with ⟨hg, hne⟩ | ⟨b', hb', hf⟩
      · rcases mem_restore (hb b List.mem_cons_self) hg with ⟨hg, he⟩ | hf
        · exact .inl ⟨hg, List.forall_mem_cons.mpr ⟨he, hne⟩⟩
        · exact .inr ⟨b, List.mem_cons_self, hf⟩
      · exact .inr ⟨b', List.mem_cons_of_mem _ hb', hf⟩

/-- Every file is again what it was before the change came to it. -/
theorem Rekeyed.readable_abort (h : w.Rekeyed r) : (w.abort r).Readable := by
  refine readable_iff.mpr ?_
  have hfile : ∀ g ∈ (w.abort r).files, g.master = w.active ∧ w.last g.path = some g.content := by
    intro g hg
    have hpaths : ∀ b ∈ r.backups.rows.reverse, ∀ f ∈ b.file, f.path = b.path :=
      fun b hb f hf => (h.backups b (List.mem_reverse.mp hb) f hf).1
    rcases mem_restored hpaths hg with ⟨hg, hne⟩ | ⟨b, hb, hf⟩
    · refine ⟨h.before g hg (.inl ?_), h.kept g hg⟩
      by_contra hn
      obtain ⟨b, hb, he⟩ := h.copied g hg hn
      exact hne b (List.mem_reverse.mpr hb) he
    · exact (h.backups b (List.mem_reverse.mp hb) g hf).2
  exact ⟨fun g hg => (hfile g hg).2, fun g hg => (hfile g hg).1⟩

theorem Rekeyed.openFile (h : w.Rekeyed r) (hs : w.openFile r = some w') : w'.Sound := by
  unfold PinWorld.openFile at hs
  split at hs
  · rename_i path hstage
    split at hs
    · rename_i content hopen
      cases hs
      obtain ⟨f, hf, hdec⟩ := Option.bind_eq_some_iff.mp hopen
      obtain ⟨hin, hpath⟩ := file_some hf
      have hcontent : f.content = content := by
        unfold PinWorld.decrypt at hdec
        split at hdec
        · exact Option.some.inj hdec
        · cases hdec
      exact
        { h with
          through := by
            rintro p ⟨⟩
            exact h.through path (by rw [hstage]; rfl)
          copiedFirst := by
            rintro p ⟨⟩
            exact h.copiedFirst path (by rw [hstage]; rfl)
          before := fun g hg hat => h.before g hg (by rw [hstage]; exact hat)
          after := fun g hg hn hat => h.after g hg hn (by rw [hstage]; exact hat)
          opened := by
            rintro p c ⟨⟩
            rw [← hpath, ← hcontent]
            exact h.kept f hin }
    · cases hs
      exact h.readable_abort
  · cases hs

theorem Rekeyed.sealFile (h : w.Rekeyed r) (hs : w.sealFile r = some w') : w'.Sound := by
  unfold PinWorld.sealFile at hs
  split at hs
  · rename_i path content hstage
    cases hs
    have hthrough : path ∉ r.todo := h.through path (by rw [hstage]; rfl)
    have hat : r.stage.path? = some path := by rw [hstage]; rfl
    exact
      { nodup := h.nodup
        through := nofun
        kept := by
          intro g hg
          rcases Table.mem_insertOrReplace.mp hg with ⟨hg, -⟩ | rfl
          · exact h.kept g hg
          · exact h.opened path content hstage
        before := by
          intro g hg hb
          rcases Table.mem_insertOrReplace.mp hg with ⟨hg, -⟩ | rfl
          · exact h.before g hg (.inl (hb.resolve_right nofun))
          · exact absurd (hb.resolve_right nofun) hthrough
        after := by
          intro g hg hn _
          rcases Table.mem_insertOrReplace.mp hg with ⟨hg, hne⟩ | rfl
          · refine h.after g hg hn ?_
            rw [hat]
            exact fun he => hne (Option.some.inj he).symm
          · rfl
        opened := nofun
        copied := by
          intro g hg hn
          rcases Table.mem_insertOrReplace.mp hg with ⟨hg, -⟩ | rfl
          · exact h.copied g hg hn
          · exact h.copiedFirst path hat
        copiedFirst := nofun
        untouched := h.untouched
        backups := h.backups }
  · cases hs

/-- All files are under the new keys once none is left. -/
theorem Rekeyed.sound_commit (h : w.Rekeyed r) (hs : w.commit r = some w') : w'.Sound := by
  unfold commit at hs
  split at hs
  · rename_i hstage htodo
    cases hs
    refine readable_iff.mpr ⟨h.kept, fun f hf => h.after f hf ?_ ?_⟩
    · rw [htodo]
      exact List.not_mem_nil
    · rw [hstage]
      exact nofun
  · cases hs

/-! ## Whole runs -/

theorem sound_of_same (hfiles : w'.files = w.files) (hactive : w'.active = w.active)
    (hlast : w'.last = w.last) (hchange : w'.change = w.change) (h : w.Sound) : w'.Sound := by
  obtain ⟨files, active, writes, change, result, failure, last⟩ := w
  obtain ⟨files', active', writes', change', result', failure', last'⟩ := w'
  cases hfiles
  cases hactive
  cases hlast
  cases hchange
  cases change with
  | idle | listed _ | verified _ => exact h
  | rekeying r =>
      have h : Rekeyed _ r := h
      exact { h with }

theorem Sound.rekeyed (h : w.Sound) (hc : w.change = .rekeying r) : w.Rekeyed r := by
  rwa [Sound, hc] at h

omit [DecidableEq κ] in
/-- The steps of the vault are there only while it works on files. -/
theorem rekeying_of_step {f : PinRekey κ γ → Option (PinWorld κ γ)}
    (hs : (match w.change with
      | .rekeying r => f r
      | _ => none) = some w') : ∃ r, w.change = .rekeying r ∧ f r = some w' := by
  cases hc : w.change with
  | rekeying r =>
      rw [hc] at hs
      exact ⟨r, rfl, hs⟩
  | idle | listed _ | verified _ => rw [hc] at hs; cases hs

theorem sound_step {l : PinLabel κ γ} (h : w.Sound) (hok : w.Undisturbed l)
    (hs : w.step l = some w') : w'.Sound := by
  cases l with
  | writeFile | writeStore =>
      obtain ⟨-, he⟩ := Option.ite_none_right_eq_some.mp hs
      cases he
      exact sound_of_same (w := w) rfl rfl rfl rfl h
  | land i => exact sound_land h hok hs
  | remove path =>
      cases hs
      exact sound_remove h
  | readAll path =>
      cases hs
      exact sound_of_same (w := w) rfl rfl rfl rfl h
  | changePin =>
      unfold step at hs
      cases hc : w.change with
      | idle =>
          rw [hc] at hs
          cases hs
          have hr : w.Readable := by rwa [Sound, hc] at h
          exact ⟨hr, Paths.listed_nodup w.files.unique, hok⟩
      | listed _ | verified _ | rekeying _ => rw [hc] at hs; cases hs
  | verify rc =>
      unfold step at hs
      cases hc : w.change with
      | listed todo =>
          rw [hc] at hs
          rw [Sound, hc] at h
          dsimp only at hs
          split at hs <;> cases hs
          · exact h
          · exact h.1
      | idle | verified _ | rekeying _ => rw [hc] at hs; cases hs
  | rekeyBegin master =>
      unfold step at hs
      cases hc : w.change with
      | verified todo =>
          rw [hc] at hs
          rw [Sound, hc] at h
          cases master <;> cases hs
          · exact h.1
          · exact { Rekeyed.begin h.1 h.2.1 h.2.2 _ with }
      | idle | listed _ | rekeying _ => rw [hc] at hs; cases hs
  | stageBackup =>
      obtain ⟨r, hc, hs⟩ := rekeying_of_step hs
      exact (h.rekeyed hc).stageBackup hs
  | decrypt =>
      obtain ⟨r, hc, hs⟩ := rekeying_of_step hs
      exact (h.rekeyed hc).openFile hs
  | encrypt =>
      obtain ⟨r, hc, hs⟩ := rekeying_of_step hs
      exact (h.rekeyed hc).sealFile hs
  | rekeyFails =>
      obtain ⟨r, hc, hs⟩ := rekeying_of_step (f := fun r => some (w.abort r)) hs
      cases hs
      exact (h.rekeyed hc).readable_abort
  | rekeyCommit =>
      obtain ⟨r, hc, hs⟩ := rekeying_of_step hs
      exact (h.rekeyed hc).sound_commit hs

/-- A step of the vault ends the change, or it goes on and has returned nothing. -/
theorem rekey_result (hs : w.stageBackup r = some w' ∨ w.openFile r = some w'
    ∨ w.sealFile r = some w' ∨ w.commit r = some w') :
    w'.change = .idle ∨ w'.result = w.result := by
  rcases hs with hs | hs | hs | hs
  · unfold PinWorld.stageBackup at hs
    split at hs <;> cases hs
    exact .inr rfl
  · unfold PinWorld.openFile at hs
    split at hs
    · split at hs <;> cases hs
      · exact .inr rfl
      · exact .inl rfl
    · cases hs
  · unfold PinWorld.sealFile at hs
    split at hs <;> cases hs
    exact .inr rfl
  · unfold commit at hs
    split at hs <;> cases hs
    exact .inl rfl

/-- Nothing has been returned while a change is under way. -/
theorem idle_of_result (h : w.result ≠ none → w.change = .idle) {l : PinLabel κ γ}
    (hs : w.step l = some w') : w'.result ≠ none → w'.change = .idle := by
  intro hret
  have hvault {r : PinRekey κ γ} (hc : w.change = .rekeying r) (hs : w.stageBackup r = some w'
      ∨ w.openFile r = some w' ∨ w.sealFile r = some w' ∨ w.commit r = some w') :
      w'.change = .idle := by
    refine (rekey_result hs).resolve_right fun he => ?_
    rw [he] at hret
    exact absurd (hc.symm.trans (h hret)) nofun
  cases l with
  | writeFile | writeStore =>
      obtain ⟨-, he⟩ := Option.ite_none_right_eq_some.mp hs
      cases he
      exact h hret
  | land i =>
      obtain ⟨f, -, rfl⟩ := Option.map_eq_some_iff.mp hs
      exact h hret
  | remove | readAll =>
      cases hs
      exact h hret
  | changePin =>
      simp only [step] at hs
      split at hs <;> cases hs
      exact absurd rfl hret
  | verify rc =>
      simp only [step] at hs
      split at hs
      · rename_i todo hc
        split at hs <;> cases hs
        · exact absurd (hc.symm.trans (h hret)) nofun
        · rfl
      · cases hs
  | rekeyBegin master =>
      simp only [step] at hs
      split at hs <;> cases hs
      · rename_i todo master hc
        exact absurd (hc.symm.trans (h hret)) nofun
      · rfl
  | stageBackup =>
      obtain ⟨r, hc, hs⟩ := rekeying_of_step hs
      exact hvault hc (.inl hs)
  | decrypt =>
      obtain ⟨r, hc, hs⟩ := rekeying_of_step hs
      exact hvault hc (.inr (.inl hs))
  | encrypt =>
      obtain ⟨r, hc, hs⟩ := rekeying_of_step hs
      exact hvault hc (.inr (.inr (.inl hs)))
  | rekeyFails =>
      obtain ⟨r, -, hs⟩ := rekeying_of_step (f := fun r => some (w.abort r)) hs
      cases hs
      rfl
  | rekeyCommit =>
      obtain ⟨r, hc, hs⟩ := rekeying_of_step hs
      exact hvault hc (.inr (.inr (.inr hs)))

variable {w₀ : PinWorld κ γ}

theorem sound_reach (hidle : w₀.change = .idle) (hstart : w₀.Readable)
    (hr : Lts.Reach step Undisturbed w₀ w) : w.Sound ∧ (w.result ≠ none → w.change = .idle) := by
  refine hr.invariant (P := fun w => w.Sound ∧ (w.result ≠ none → w.change = .idle))
    ⟨?_, fun _ => hidle⟩ fun s l s' _ ih hok hs => ⟨sound_step ih.1 hok hs, idle_of_result ih.2 hs⟩
  rw [Sound, hidle]
  exact hstart

/-- A file that opens is not taken for a damaged one. -/
theorem readAll_readable (h : w.Readable) (path : DataPath) :
    (w.readAll path).vaultIoFailure = w.vaultIoFailure := by
  cases hfile : w.file path with
  | none => simp [readAll, hfile]
  | some f => simp [readAll, hfile, (h f (file_some hfile).1).1]

/-- Whenever a change has returned 0, every file there is opens under the new keys to what was last
written to it, and none that is read is taken for damaged, provided that every file was listed and
no write was put in place under other keys or behind the change. -/
theorem pin_change_reaches (hidle : w₀.change = .idle) (hstart : w₀.Readable)
    (hr : Lts.Reach step Undisturbed w₀ w) (hret : w.result = some 0) :
    w.Readable ∧ ∀ path, (w.readAll path).vaultIoFailure = w.vaultIoFailure := by
  obtain ⟨hsound, hresult⟩ := sound_reach hidle hstart hr
  have hreadable : w.Readable := by rwa [Sound, hresult (by rw [hret]; nofun)] at hsound
  exact ⟨hreadable, readAll_readable hreadable⟩

/-! ## What is missed -/

/-- A client with one file, which opens. -/
def soleFile (path : DataPath) : PinWorld Nat Nat where
  files := Table.empty.insertOrReplace ⟨path, 1, 7⟩
  active := 1
  writes := []
  change := .idle
  result := none
  vaultIoFailure := false
  last p := if p = path then some 7 else none

/-- The whole of a change, with the steps of other workers put in at three places. -/
def changeWith (files : Nat) (before within after : List (PinLabel Nat Nat)) :
    List (PinLabel Nat Nat) :=
  [.changePin, .verify 0] ++ before ++ [.rekeyBegin (some 2)] ++ within
    ++ (List.replicate files [.stageBackup, .decrypt, .encrypt]).flatten ++ after ++ [.rekeyCommit]

/-- A login writes `client.json` before the change comes to it. -/
theorem pin_change_reaches_write : ∃ w,
    Lts.exec step (soleFile (Paths.profileClient "p")) (changeWith 1
      [.writeFile (Paths.profileClient "p") 8] [.land 0] []) = some w
    ∧ w.Readable ∧ ∀ path, (w.readAll path).vaultIoFailure = w.vaultIoFailure := by
  have hsome : ((Lts.execWhile step Undisturbed (soleFile (Paths.profileClient "p")) (changeWith 1
      [.writeFile (Paths.profileClient "p") 8] [.land 0] [])).any
        fun w => w.result = some 0) = true := by
    decide
  obtain ⟨w, hw, hret⟩ := (Option.any_eq_true _ _).mp hsome
  exact ⟨w, Lts.exec_of_execWhile hw,
    pin_change_reaches rfl (by decide) (Lts.Reach.refl.execWhile hw) (by simpa using hret)⟩

/-- `corp.json` is not listed; nor is the attachment of a message that its sender has named `.x`; and
a write is put in place under the old keys once the change is through with the file. The changes
return 0, and the file does not open any more. -/
theorem pin_change_misses :
    ((Lts.exec step (soleFile (Paths.profileCorp "p")) (changeWith 0 [] [] [])).any fun w =>
      w.result = some 0 ∧ ¬ w.Readable ∧ (w.readAll (Paths.profileCorp "p")).vaultIoFailure) = true
    ∧ ((Lts.exec step (soleFile (Paths.attachmentEnc "p" ".x")) (changeWith 0 [] [] [])).any fun w =>
      w.result = some 0 ∧ ¬ w.Readable) = true
    ∧ ((Lts.exec step (soleFile (Paths.profileClient "p")) (changeWith 1 []
        [.writeFile (Paths.profileClient "p") 8] [.land 0])).any fun w => w.result = some 0
          ∧ ¬ w.Readable ∧ (w.readAll (Paths.profileClient "p")).vaultIoFailure) = true := by
  refine ⟨?_, ?_, ?_⟩ <;> decide

end PinWorld

end Paranoia
