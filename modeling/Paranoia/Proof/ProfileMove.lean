import Paranoia.Client.ProfileMove
import Paranoia.Proof.Manifest

/-!
# Where a move can stop

At a start only profiles with an entry are loaded, and under the id that their configuration gives
them. So a profile whose directory was renamed is found again only if both its entry and its
configuration are rewritten.
-/

namespace Paranoia

namespace ProfileDisk

variable {δ : Type} {ids : ProfileIds} {d : ProfileDisk δ} {q : ProfileMove} {files : δ}
  {name : String} {oks : List Bool}

/-! ## Loading -/

/-- The login that a profile is given. -/
def loginOf (ids : ProfileIds) (d : ProfileDisk δ) (id : String) (makeActive : Bool) :
    Option StartupLogin :=
  match d.client id with
  | none => none
  | some config =>
      if config.server = "" ∨ config.privateKey = "" then none
      else Startup.loginClientInternal ids config makeActive

/-- Of all profiles only `id` is loaded as one of the two. -/
structure Only (ids : ProfileIds) (d : ProfileDisk δ) (q : ProfileMove) (id : String)
    (profileId : String) : Prop where
  nonempty : id ≠ ""
  moved : profileId = q.old ∨ profileId = q.new
  loaded : ∀ makeActive, ∃ l, d.loginOf ids id makeActive = some l ∧ l.profileId = profileId
  others : ∀ other, other ≠ id → ∀ makeActive, ∀ l ∈ d.loginOf ids other makeActive,
    ¬ (l.profileId = q.old ∨ l.profileId = q.new)

/-- What has been loaded so far: the profile, if its turn has come. -/
structure Upto (q : ProfileMove) (id profileId : String) (seen : Prop) (acc : Startup.Loaded) :
    Prop where
  loaded : id ∈ acc.loaded ↔ seen
  logins : (seen ∧ ∃ l, acc.logins.filter (fun l => l.profileId = q.old ∨ l.profileId = q.new) = [l]
      ∧ l.profileId = profileId)
    ∨ (¬ seen ∧ acc.logins.filter (fun l => l.profileId = q.old ∨ l.profileId = q.new) = [])

variable {id profileId : String} {acc : Startup.Loaded} {seen : Prop}

theorem Upto.tryLoad (honly : Only ids d q id profileId) (h : Upto q id profileId seen acc)
    (other : String) (makeActive : Bool) :
    Upto q id profileId (seen ∨ other = id) (d.tryLoad ids acc other makeActive) := by
  unfold ProfileDisk.tryLoad
  split
  · rename_i hskip
    have hsame : (seen ∨ other = id) ↔ seen := by
      refine or_iff_left_of_imp fun heq => ?_
      subst heq
      exact h.loaded.mp (hskip.resolve_left honly.nonempty)
    rwa [propext hsame]
  · rename_i hnew
    by_cases hother : other = id
    · subst hother
      have hseen : ¬ seen := fun hs => hnew (.inr (h.loaded.mpr hs))
      obtain ⟨l, hl, hid⟩ := honly.loaded makeActive
      unfold loginOf at hl
      cases hclient : d.client other with
      | none =>
          rw [hclient] at hl
          cases hl
      | some config =>
          rw [hclient] at hl
          dsimp only at hl ⊢
          split at hl
          · cases hl
          · rename_i hgood
            rw [if_neg hgood]
            refine ⟨by simp, .inl ⟨.inr rfl, l, ?_, hid⟩⟩
            rw [List.filter_append, (h.logins.resolve_left fun hs => hseen hs.1).2, hl,
              Option.toList_some, List.nil_append, List.filter_cons_of_pos, List.filter_nil]
            exact decide_eq_true (hid ▸ honly.moved)
    · have hsame : (seen ∨ other = id) ↔ seen := or_iff_left hother
      rw [propext hsame]
      have hout := honly.others other hother makeActive
      unfold loginOf at hout
      cases hclient : d.client other with
      | none => exact h
      | some config =>
          rw [hclient] at hout
          dsimp only at hout ⊢
          split
          · exact h
          · rename_i hgood
            rw [if_neg hgood] at hout
            have hnone : (Startup.loginClientInternal ids config makeActive).toList.filter
                (fun l => l.profileId = q.old ∨ l.profileId = q.new) = [] :=
              List.filter_eq_nil_iff.mpr fun l hl hin =>
                hout l (Option.mem_toList.mp hl) (of_decide_eq_true hin)
            refine ⟨?_, ?_⟩
            · rw [← h.loaded, List.mem_cons]
              exact or_iff_right (Ne.symm hother)
            · dsimp only
              rw [List.filter_append, hnone, List.append_nil]
              exact h.logins

/-- The profile is loaded if it has an entry or is the last one. -/
theorem logins_loadClientConfig (honly : Only ids d q id profileId) :
    ((d.manifest.entry id ≠ none ∨ d.manifest.lastProfileId = id) ∧
      ∃ l, (d.loadClientConfig ids).filter (fun l => l.profileId = q.old ∨ l.profileId = q.new) = [l]
        ∧ l.profileId = profileId)
    ∨ (¬ (d.manifest.entry id ≠ none ∨ d.manifest.lastProfileId = id) ∧
      (d.loadClientConfig ids).filter (fun l => l.profileId = q.old ∨ l.profileId = q.new) = []) := by
  have hloop : ∀ (profiles : List ManifestEntry) (acc : Startup.Loaded) (seen : Prop),
      Upto q id profileId seen acc →
      Upto q id profileId (seen ∨ ∃ e ∈ profiles, e.id = id) (profiles.foldl (fun acc e =>
        d.tryLoad ids acc e.id (e.id = d.manifest.lastProfileId)) acc) := by
    intro profiles
    induction profiles with
    | nil => exact fun acc seen h => by simpa using h
    | cons e profiles ih =>
        intro acc seen h
        have hnext := ih _ _ (h.tryLoad honly e.id (e.id = d.manifest.lastProfileId))
        rwa [or_assoc, ← List.exists_mem_cons_iff (p := fun e : ManifestEntry => e.id = id)] at hnext
  have hentry : (∃ e ∈ d.manifest.profiles, e.id = id) ↔ d.manifest.entry id ≠ none := by
    unfold Manifest.entry
    rw [Ne, List.find?_eq_none]
    push Not
    simp
  have hstart : Upto q id profileId False ⟨[], []⟩ :=
    ⟨iff_of_false List.not_mem_nil not_false, .inr ⟨not_false, rfl⟩⟩
  have hall := hloop d.manifest.profiles _ _ hstart
  rw [false_or, propext hentry] at hall
  unfold loadClientConfig
  dsimp only
  split
  · rename_i hlast
    by_cases heq : d.manifest.lastProfileId = id
    · have hseen := hall.loaded.mp (heq ▸ hlast)
      rw [propext (or_iff_left_of_imp fun _ => hseen)]
      exact hall.logins
    · rw [propext (or_iff_left heq)]
      exact hall.logins
  · exact (hall.tryLoad honly d.manifest.lastProfileId true).logins

/-- A profile with a configuration that is good is loaded under the id of its server and key. -/
theorem loginOf_good {config : ClientConfig} (hclient : d.client id = some config)
    (hgood : config.server ≠ "" ∧ config.privateKey ≠ "" ∧ ids.deriveServerId config.privateKey ≠ "")
    (makeActive : Bool) :
    ∃ l, d.loginOf ids id makeActive = some l ∧ l.profileId = ids.idOf config := by
  unfold loginOf
  rw [hclient]
  dsimp only
  rw [if_neg (not_or.mpr ⟨hgood.1, hgood.2.1⟩), Startup.loginClientInternal, if_neg hgood.2.2]
  exact ⟨_, rfl, rfl⟩

theorem loginOf_id {makeActive : Bool} {l : StartupLogin} (h : d.loginOf ids id makeActive = some l) :
    ∃ config, d.client id = some config ∧ l.profileId = ids.idOf config := by
  unfold loginOf at h
  cases hclient : d.client id with
  | none =>
      rw [hclient] at h
      cases h
  | some config =>
      rw [hclient] at h
      dsimp only at h
      split at h
      · cases h
      · unfold Startup.loginClientInternal at h
        split at h
        · cases h
        · cases h
          exact ⟨config, rfl, rfl⟩

/-! ## The manifest -/

/-- What a manifest has of a profile: nothing, or an entry with a name. -/
def Records (m : Manifest) (id : String) : Option String → Prop
  | none => m.entry id = none ∧ m.lastProfileId ≠ id
  | some name => m.entry id ≠ none ∧ m.localName id = name

variable {m m' : Manifest} {disk memory known : Option String}

theorem Records.loadedName (h : Records m id known) : m.loadedName id = known := by
  cases known with
  | none => exact if_neg (not_or.mpr ⟨not_not.mpr h.1, h.2⟩)
  | some n => exact (if_pos (.inl h.1)).trans (congrArg some h.2)

theorem writtenOver_other {fields : List (String × String)} {f : String → Option String}
    {key : String} (h : ∀ p ∈ fields, p.1 ≠ key) : writtenOver fields f key = f key := by
  induction fields generalizing f with
  | nil => rfl
  | cons p fields ih =>
      obtain ⟨hp, hfields⟩ := List.forall_mem_cons.mp h
      rw [writtenOver, List.foldl_cons]
      exact (ih hfields).trans (if_neg hp.symm)

theorem Records.congr (hentry : m'.entry id = m.entry id) (h : Records m id (some name)) :
    Records m' id (some name) := by
  rwa [Records, Manifest.localName, Manifest.field, hentry]

theorem Records.dropMoved {old : String} (hid : id ≠ old) (hne : id ≠ "") (h : Records m id none) :
    Records (m.dropMoved old) id none := by
  refine ⟨(Manifest.entry_filter id).trans ((if_neg hid).trans h.1), ?_⟩
  unfold Manifest.dropMoved
  dsimp only
  split
  · exact hne.symm
  · exact h.2

/-- An entry is made, or keeps its name. -/
theorem Records.upsert {server username now : String} {makeLast : Bool} (h : Records m id known) :
    Records (m.upsertProfileManifest id server username now makeLast) id
      (some (known.getD "")) := by
  obtain ⟨hentry, hfield⟩ := entry_apply (m := m)
    (u := .upsert id server username now makeLast) rfl id
  refine ⟨hentry.mpr (.inl (List.mem_singleton_self _)), ?_⟩
  have hother : ∀ p ∈ [("server", server), ("username", username), ("updated_at", now)],
      p.1 ≠ "localName" := by simp
  have hname : (m.upsertProfileManifest id server username now makeLast).localName id
      = m.localName id := by
    rw [Manifest.localName, hfield, ManifestUpdate.over, if_pos rfl, writtenOver_other hother]
    rfl
  rw [hname]
  cases known with
  | none =>
      rw [Manifest.localName, Manifest.field, h.1]
      rfl
  | some n => exact h.2

/-- With what is carried over the entry has the old name, also if there was none. -/
theorem Records.carry (h : Records m q.new (some "")) :
    ∃ m', (ManifestUpdate.update q.new (d.carry q) q.now).apply m = some m'
      ∧ Records m' q.new (some (d.cache.localName q.old)) := by
  obtain ⟨e, he⟩ := Option.ne_none_iff_exists'.mp h.1
  obtain ⟨m', happly⟩ : ∃ m', (ManifestUpdate.update q.new (d.carry q) q.now).apply m = some m' := by
    rw [ManifestUpdate.apply, Manifest.updateProfileManifestEntry, he]
    exact ⟨_, rfl⟩
  obtain ⟨hentry, hfield⟩ := entry_apply happly q.new
  refine ⟨m', happly, hentry.mpr (.inr ⟨List.not_mem_nil, h.1⟩), ?_⟩
  have hrest : ∀ f, writtenOver ((if (d.cache.field q.old "avatar").getD "" = "" then []
      else [("avatar", (d.cache.field q.old "avatar").getD "")])
        ++ [("updated_at", q.now)]) f "localName" = f "localName" := by
    refine fun f => writtenOver_other fun p hp => ?_
    rcases List.mem_append.mp hp with hp | hp
    · split at hp
      · cases hp
      · rw [List.mem_singleton.mp hp]
        exact (by decide : "avatar" ≠ "localName")
    · rw [List.mem_singleton.mp hp]
      exact (by decide : "updated_at" ≠ "localName")
  rw [Manifest.localName, hfield, ManifestUpdate.over, if_pos rfl, ProfileDisk.carry,
    List.append_assoc]
  by_cases hname : d.cache.localName q.old = ""
  · rw [if_pos hname, List.nil_append, hrest, hname]
    exact h.2
  · rw [if_neg hname, List.singleton_append, writtenOver, List.foldl_cons, ← writtenOver, hrest,
      if_pos rfl]
    rfl

/-! ## Steps -/

variable {d' : ProfileDisk δ} {written ok : Bool}

theorem steps_cons (d : ProfileDisk δ) (f : Bool → ProfileDisk δ → ProfileDisk δ)
    (fs : List (Bool → ProfileDisk δ → ProfileDisk δ)) (oks : List Bool) :
    d.steps (f :: fs) oks = (f (oks.getD 0 false) d).steps fs oks.tail := by
  cases oks <;> rfl

theorem getD_tail (oks : List Bool) (i : Nat) : oks.tail.getD i false = oks.getD (i + 1) false := by
  cases oks <;> rfl

theorem steps_nil (d : ProfileDisk δ) (oks : List Bool) : d.steps [] oks = d := by
  cases oks <;> rfl

theorem loadedName_write {ok : Bool} (hm : Records m id known)
    (hdisk : d'.manifest.loadedName id = disk) :
    (d'.writeProfilesManifest m ok).manifest.loadedName id = if ok then known else disk := by
  cases ok with
  | false => exact hdisk
  | true => exact hm.loadedName

/-- From the login on each manifest that gets to the disk brings the name there. -/
theorem loadedName_changes {changes : List (Manifest → Manifest)}
    (hkeep : ∀ f ∈ changes, ∀ m, Records m id (some name) → Records (f m) id (some name))
    (oks : List Bool) (hmemory : Records d'.cache id (some name))
    (hdisk : d'.manifest.loadedName id = disk) :
    (d'.steps (changes.map changeManifest) oks).dirs = d'.dirs
      ∧ Records (d'.steps (changes.map changeManifest) oks).cache id (some name)
      ∧ (d'.steps (changes.map changeManifest) oks).manifest.loadedName id
        = if true ∈ oks.take changes.length then some name else disk := by
  induction changes generalizing d' disk oks with
  | nil =>
      rw [List.map_nil, steps_nil]
      exact ⟨rfl, hmemory, by simpa using hdisk⟩
  | cons f changes ih =>
      obtain ⟨hf, hkeep⟩ := List.forall_mem_cons.mp hkeep
      have hnext : Records (d'.changeManifest f (oks.getD 0 false)).cache id (some name) :=
        hf d'.cache hmemory
      have hnow : (d'.changeManifest f (oks.getD 0 false)).manifest.loadedName id
          = if oks.getD 0 false then some name else disk := loadedName_write hnext hdisk
      obtain ⟨hdirs, hcache, hrest⟩ := ih hkeep oks.tail hnext hnow
      rw [List.map_cons, steps_cons]
      refine ⟨hdirs, hcache, hrest.trans ?_⟩
      cases oks with
      | nil => simp
      | cons ok oks => cases ok <;> simp

theorem records_loginChanges (config : ClientConfig)
    (hlater : ∀ f ∈ q.later, ∀ m, (f m).entry id = m.entry id) :
    ∀ f ∈ loginChanges q id config, ∀ m,
      Records m id (some name) → Records (f m) id (some name) :=
  List.forall_mem_cons.mpr ⟨fun _ h => h.upsert, fun f hf m h => h.congr (hlater f hf m)⟩

/-- After the directory was renamed: what a start would make of the manifest on disk, what the one in
memory has, and whether the configuration is the new one. -/
structure Moved (d : ProfileDisk δ) (q : ProfileMove) (files : δ) (disk memory : Option String)
    (written : Bool) (d' : ProfileDisk δ) : Prop where
  gone : d'.dirs q.old = none
  there : d'.dirs q.new = some ⟨some (if written then q.newConfig else q.config), some files⟩
  others : ∀ id, id ≠ q.old → id ≠ q.new → d'.dirs id = d.dirs id
  disk : d'.manifest.loadedName q.new = disk
  memory : Records d'.cache q.new memory

theorem Moved.rename (h : Movable ids d q files) :
    Moved d q files (d.manifest.loadedName q.new) none false (d.renameDir q.old q.new) where
  gone := Function.update_self ..
  there := (Function.update_of_ne h.moved.symm ..).trans
    ((Function.update_self ..).trans h.stored)
  others _ ho hn := (Function.update_of_ne ho ..).trans (Function.update_of_ne hn ..)
  disk := rfl
  memory := h.free.2

theorem Moved.write (h : Moved d q files disk memory written d') (hm : Records m q.new known) :
    Moved d q files (if ok then known else disk) known written (d'.writeProfilesManifest m ok) where
  gone := h.gone
  there := h.there
  others := h.others
  disk := loadedName_write hm h.disk
  memory := hm

theorem Moved.dropOld (hm : Movable ids d q files) (h : Moved d q files disk none written d')
    (ok : Bool) :
    Moved d q files (if ok then none else disk) none written (d'.updateManifest (.move q.old) ok) :=
  h.write (h.memory.dropMoved hm.moved.symm hm.known.2.2.2.2.2)

theorem Moved.upsert (h : Moved d q files disk memory written d') (server username now : String)
    (makeLast ok : Bool) :
    Moved d q files (if ok then some (memory.getD "") else disk) (some (memory.getD "")) written
      (d'.updateManifest (.upsert q.new server username now makeLast) ok) :=
  h.write h.memory.upsert

theorem Moved.carry (h : Moved d q files disk (some "") written d') (ok : Bool) :
    Moved d q files (if ok ∧ d.carry q ≠ [] then some (d.cache.localName q.old) else disk)
      (some (d.cache.localName q.old)) written
      ((if d.carry q = [] then fun _ d => d else updateManifest (.update q.new (d.carry q) q.now))
        ok d') := by
  by_cases hc : d.carry q = []
  · -- there is nothing to carry, so there is no name
    have hnil : d.cache.localName q.old = "" := by
      by_contra hne
      rw [ProfileDisk.carry, if_neg hne] at hc
      cases hc
    rw [if_pos hc, if_neg (fun hand => hand.2 hc), hnil]
    exact h
  · obtain ⟨m', happly, hm'⟩ := h.memory.carry (d := d)
    have hwrite : Moved d q files (if ok then some (d.cache.localName q.old) else disk)
        (some (d.cache.localName q.old)) written (d'.writeProfilesManifest m' ok) := h.write hm'
    rw [if_neg hc, updateManifest, happly]
    simpa only [ne_eq, hc, not_false_eq_true, and_true] using hwrite

theorem Moved.save (hq : q.old ≠ q.new) (h : Moved d q files disk memory written d') (ok : Bool) :
    Moved d q files disk memory (written || ok)
      (d'.saveClientConfigForProfile q.new q.newConfig ok) := by
  cases ok with
  | false => rwa [Bool.or_false]
  | true =>
      rw [Bool.or_true]
      unfold saveClientConfigForProfile
      rw [h.there]
      refine ⟨?_, ?_, fun id ho hn => ?_, h.disk, h.memory⟩
      · exact (Function.update_of_ne hq ..).trans h.gone
      · exact Function.update_self ..
      · exact (Function.update_of_ne hn ..).trans (h.others id ho hn)

theorem Moved.login (hm : Movable ids d q files)
    (h : Moved d q files disk (some name) written d') (oks : List Bool) :
    Moved d q files (if true ∈ oks.tail.take (q.later.length + 1) then some name else disk)
      (some name) (written || oks.getD 0 false) (d'.steps (login q q.new q.newConfig) oks) := by
  have hsaved := h.save hm.moved (oks.getD 0 false)
  rw [ProfileDisk.login, steps_cons]
  obtain ⟨hdirs, hmemory, hdisk⟩ := loadedName_changes
    (records_loginChanges q.newConfig fun f hf m => (hm.apart f hf m).2) oks.tail
    hsaved.memory hsaved.disk
  exact
    { gone := (congrFun hdirs _).trans hsaved.gone
      there := (congrFun hdirs _).trans hsaved.there
      others := fun id ho hn => (congrFun hdirs _).trans (hsaved.others id ho hn)
      disk := hdisk
      memory := hmemory }

/-- What a start makes of the disk after all these steps. The manifest in memory has the name from the
third on. -/
theorem Moved.steps (hm : Movable ids d q files) (h : Moved d q files disk none false d')
    (oks : List Bool) :
    Moved d q files
      (if true ∈ (oks.drop 5).take (q.later.length + 1) then some (d.cache.localName q.old)
        else if oks.getD 2 false ∧ d.carry q ≠ [] then some (d.cache.localName q.old)
        else if oks.getD 1 false then some "" else if oks.getD 0 false then none else disk)
      (some (d.cache.localName q.old)) (oks.getD 3 false || oks.getD 4 false)
      (d'.steps (movedSteps q (d.carry q)) oks) := by
  have hadded := (h.dropOld hm (oks.getD 0 false)).upsert q.newServer q.config.username q.now
    q.wasActive (oks.getD 1 false)
  have hmoved := (hadded.carry (oks.getD 2 false)).save hm.moved (oks.getD 3 false)
  have hdrop : oks.tail.tail.tail.tail = oks.drop 4 := by
    simp only [← List.drop_one, List.drop_drop]
  have hlogin := hmoved.login hm (oks.drop 4)
  have hget : (oks.drop 4).getD 0 false = oks.getD 4 false := by
    simp [List.getD_eq_getElem?_getD]
  rw [List.tail_drop, hget] at hlogin
  unfold movedSteps
  simp only [List.cons_append, List.nil_append, steps_cons, getD_tail, hdrop]
  exact hlogin

/-! ## The next start -/

theorem loadedName_eq_some : m.loadedName id = some name
    ↔ (m.entry id ≠ none ∨ m.lastProfileId = id) ∧ m.localName id = name := by
  unfold Manifest.loadedName
  split <;> simp [*]

/-- What is asked of the one directory that is loaded. -/
theorem loadedWhole_iff (honly : Only ids d' q id profileId) :
    d'.LoadedWhole ids q files name ↔ (d'.manifest.entry id ≠ none ∨ d'.manifest.lastProfileId = id)
      ∧ d'.data profileId = some files ∧ d'.manifest.localName profileId = name := by
  rcases logins_loadClientConfig honly with ⟨hseen, l, hl, rfl⟩ | ⟨hseen, hl⟩
  · constructor
    · rintro ⟨l', hl', hrest⟩
      obtain rfl : l = l' := (List.cons.inj (hl.symm.trans hl')).1
      exact ⟨hseen, hrest⟩
    · exact fun h => ⟨l, hl, h.2⟩
  · refine iff_of_false ?_ fun h => hseen h.1
    rintro ⟨l, hl', -⟩
    rw [hl] at hl'
    cases hl'

/-- Where the directory was renamed. -/
theorem Moved.loadedWhole_iff (hm : Movable ids d q files)
    (h : Moved d q files disk memory written d') :
    d'.LoadedWhole ids q files name ↔ disk = some name ∧ written = true := by
  obtain ⟨hserver, hnewServer, hkey, hderive, -, hnew⟩ := hm.known
  have hclient : d'.client q.new = some (if written then q.newConfig else q.config) := by
    rw [client, h.there]
    rfl
  have hothers : ∀ other, other ≠ q.new → ∀ makeActive, ∀ l ∈ d'.loginOf ids other makeActive,
      ¬ (l.profileId = q.old ∨ l.profileId = q.new) := by
    intro other hother makeActive l hl hin
    obtain ⟨config, hconfig, hid⟩ := loginOf_id hl
    have hne : other ≠ q.old := by
      intro heq
      rw [heq, client, h.gone] at hconfig
      cases hconfig
    rw [client, h.others other hne hother, ← client] at hconfig
    rw [hid, hm.own other config hne hconfig] at hin
    exact hin.elim hne hother
  have hdata : d'.data q.new = some files := by
    rw [data, h.there]
    rfl
  cases written with
  | false =>
      -- the configuration leads to the old directory, which is empty
      have honly : Only ids d' q q.new q.old := by
        refine ⟨hnew, .inl rfl, fun makeActive => ?_, hothers⟩
        rw [← hm.idOf.1]
        exact loginOf_good hclient ⟨hserver, hkey, hderive⟩ makeActive
      rw [ProfileDisk.loadedWhole_iff honly]
      refine iff_of_false (fun hwhole => ?_) (fun hw => Bool.false_ne_true hw.2)
      rw [data, h.gone] at hwhole
      cases hwhole.2.1
  | true =>
      have honly : Only ids d' q q.new q.new := by
        refine ⟨hnew, .inr rfl, fun makeActive => ?_, hothers⟩
        obtain ⟨l, hl, hid⟩ := loginOf_good hclient ⟨hnewServer, hkey, hderive⟩ makeActive
        exact ⟨l, hl, hid.trans hm.idOf.2⟩
      rw [ProfileDisk.loadedWhole_iff honly, and_iff_right hdata, ← loadedName_eq_some, h.disk,
        and_iff_left rfl]

/-- Where it was not, the directories are as they were. -/
theorem kept_loadedWhole_iff (hm : Movable ids d q files) (hdirs : d'.dirs = d.dirs) :
    d'.LoadedWhole ids q files name ↔ d'.manifest.loadedName q.old = some name := by
  obtain ⟨hserver, -, hkey, hderive, hold, -⟩ := hm.known
  have hclient : d'.client q.old = some q.config := by
    rw [client, hdirs, hm.stored]
    rfl
  have hdata : d'.data q.old = some files := by
    rw [data, hdirs, hm.stored]
    rfl
  have honly : Only ids d' q q.old q.old := by
    refine ⟨hold, .inl rfl, fun makeActive => ?_, fun other hother makeActive l hl hin => ?_⟩
    · obtain ⟨l, hl, hid⟩ := loginOf_good hclient ⟨hserver, hkey, hderive⟩ makeActive
      exact ⟨l, hl, hid.trans hm.idOf.1⟩
    · obtain ⟨config, hconfig, hid⟩ := loginOf_id hl
      rw [client, hdirs] at hconfig
      have hne : other ≠ q.new := by
        intro heq
        rw [heq, hm.free.1] at hconfig
        cases hconfig
      rw [hid, hm.own other config hother hconfig] at hin
      exact hin.elim hother hne
  rw [loadedWhole_iff honly, and_iff_right hdata, loadedName_eq_some]

/-- The login at the old address writes the configuration that was there. -/
theorem login_kept (hm : Movable ids d q files) (oks : List Bool) :
    (d.steps (login q q.old q.config) oks).dirs = d.dirs
      ∧ (d.steps (login q q.old q.config) oks).manifest.loadedName q.old
        = if true ∈ oks.tail.take (q.later.length + 1) then some (d.cache.localName q.old)
          else d.manifest.loadedName q.old := by
  have hsave : d.saveClientConfigForProfile q.old q.config (oks.getD 0 false) = d := by
    unfold saveClientConfigForProfile
    have hsame : Function.update d.dirs q.old (some ⟨some q.config, some files⟩) = d.dirs := by
      rw [← hm.stored, Function.update_eq_self]
    rw [hm.stored]
    cases oks.getD 0 false with
    | false => rfl
    | true => exact congrArg (fun dirs => ({ d with dirs } : ProfileDisk δ)) hsame
  have hstart : Records d.cache q.old (some (d.cache.localName q.old)) := ⟨hm.entry, rfl⟩
  obtain ⟨hdirs, -, hdisk⟩ := loadedName_changes
    (records_loginChanges q.config fun f hf m => (hm.apart f hf m).1) oks.tail hstart rfl
  rw [login, steps_cons, hsave]
  exact ⟨hdirs, hdisk⟩

/-- **A move is whole** exactly where the directory is not renamed and what was known of the profile is
on disk, or the entry, the local name and the configuration follow the directory to the disk. -/
theorem move_whole_iff (ids : ProfileIds) (d : ProfileDisk δ) (q : ProfileMove) (files : δ)
    (hm : Movable ids d q files) (oks : List Bool) :
    (d.changeProfileServer q oks).LoadedWhole ids q files (d.cache.localName q.old)
      ↔ d.Survives q oks := by
  have hkept : ∀ oks, (d.steps (login q q.old q.config) oks).LoadedWhole ids q files
      (d.cache.localName q.old) ↔ true ∈ oks.tail.take (q.later.length + 1)
        ∨ d.manifest.loadedName q.old = some (d.cache.localName q.old) := by
    intro oks
    obtain ⟨hdirs, hdisk⟩ := login_kept hm oks
    rw [kept_loadedWhole_iff hm hdirs, hdisk]
    split
    · rename_i hwritten
      exact iff_of_true rfl (.inl hwritten)
    · rename_i hwritten
      rw [or_iff_right hwritten]
  match oks with
  | [] => exact hkept []
  | false :: oks =>
      have hfailed := hkept oks
      rw [← List.drop_one] at hfailed
      exact hfailed
  | true :: oks =>
      refine (((Moved.rename hm).steps hm oks).loadedWhole_iff hm).trans ?_
      unfold Survives
      rw [Bool.or_eq_true]
      refine and_congr_left fun _ => ?_
      -- the last manifest that gets to the disk decides
      split
      · rename_i hlogin
        exact iff_of_true rfl (.inl hlogin)
      rename_i hlogin
      rw [or_iff_right hlogin]
      split
      · rename_i hcarry
        exact iff_of_true rfl (.inl hcarry)
      rename_i hcarry
      rw [or_iff_right hcarry]
      split
      · rename_i hfirst
        rw [Option.some_inj, and_iff_right hfirst, or_iff_left fun h => h.2.1 hfirst, eq_comm]
      rename_i hfirst
      rw [or_iff_right fun h => hfirst h.1]
      split
      · rename_i hdropped
        exact iff_of_false nofun fun h => h.1 hdropped
      · rename_i hdropped
        rw [and_iff_right hdropped, and_iff_right hfirst]

/-! ## A profile of one account -/

def slashIds : ProfileIds := ⟨fun key => key, fun server serverId => server ++ "/" ++ serverId⟩

def workProfile : ProfileDisk Nat where
  dirs id := if id = "a/k" then some ⟨some ⟨"a", "alice", "k"⟩, some 7⟩ else none
  manifest := ⟨[⟨"a/k", [("localName", "work")]⟩], "a/k"⟩
  cache := ⟨[⟨"a/k", [("localName", "work")]⟩], "a/k"⟩

def workMove : ProfileMove := ⟨"a/k", "b/k", "b", ⟨"a", "alice", "k"⟩, true, "today", []⟩

theorem workMove_movable : Movable slashIds workProfile workMove 7 where
  stored := by decide
  entry := by decide
  free := by decide
  moved := by decide
  idOf := by decide
  known := by decide
  own id config hne h := by
    change ((if id = "a/k" then _ else _ : Option (ProfileFiles Nat)).bind _) = _ at h
    rw [if_neg (show ¬ id = "a/k" from hne)] at h
    cases h
  apart := nofun

/-- The new entry and what is carried over do not get to the disk, and the login brings them there. -/
theorem move_whole_workProfile :
    (workProfile.changeProfileServer workMove
      [true, true, false, false, true, true, true]).LoadedWhole slashIds workMove 7 "work" :=
  (move_whole_iff slashIds workProfile workMove 7 workMove_movable
    [true, true, false, false, true, true, true]).mpr ⟨.inl (by decide), .inl rfl⟩

/-- The process dies when the directory has been renamed. -/
theorem profile_lost :
    ¬ ∀ (ids : ProfileIds) (d : ProfileDisk Nat) (q : ProfileMove) (files : Nat),
      Movable ids d q files → ∀ oks : List Bool,
        (d.changeProfileServer q oks).LoadedWhole ids q files (d.cache.localName q.old) := by
  intro h
  obtain ⟨login, hl, -⟩ := h slashIds workProfile workMove 7 workMove_movable [true]
  have hnone : (workProfile.changeProfileServer workMove [true]).loadClientConfig slashIds = [] := by
    decide
  rw [hnone] at hl
  cases hl

end ProfileDisk

end Paranoia
