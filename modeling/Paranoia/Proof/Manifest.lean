import Paranoia.Client.Manifest
import Paranoia.Lib.Lts
import Paranoia.Lib.Tasks

/-!
# What the manifest has in the end

Two threads that load the manifest before either has written it lose what the first one wrote, and a
login that began before its profile was deleted puts the profile back (`manifest_lost`). As long as
whoever writes has loaded what is there, and no profile is added while it is being taken away or
taken away while it is being added, every field has what was last written to it, no profile is
missing, and nothing is left of one that was deleted (`manifest_kept`).
-/

namespace Paranoia

/-! ## Entries and fields -/

/-- The value that these fields leave. -/
def writtenOver (fields : List (String × String)) (f : String → Option String) :
    String → Option String :=
  fields.foldl (fun f p key => if key = p.1 then some p.2 else f key) f

/-- What an update makes of the fields of all profiles. -/
def ManifestUpdate.over (f : String → String → Option String) :
    ManifestUpdate → String → String → Option String
  | .upsert id' server username now _, id =>
      if id = id' then
        writtenOver [("server", server), ("username", username), ("updated_at", now)] (f id)
      else f id
  | .update id' fields now, id =>
      if id = id' then writtenOver (fields ++ [("updated_at", now)]) (f id) else f id
  | .delete id', id => if id = id' then fun _ => none else f id
  | .move id', id => if id = id' then fun _ => none else f id

/-- The last value written to each field, all these updates having been made in full. -/
def lastWritten (f : String → String → Option String) (log : List ManifestUpdate) :
    String → String → Option String :=
  log.foldl ManifestUpdate.over f

theorem lookup_filter_ne {fields : List (String × String)} {key k : String} (hk : k ≠ key) :
    (fields.filter (·.1 ≠ key)).lookup k = fields.lookup k := by
  induction fields with
  | nil => rfl
  | cons f fields ih =>
      obtain ⟨a, b⟩ := f
      by_cases ha : a = key
      · subst ha
        rw [List.filter_cons_of_neg (by simp), ih, List.lookup_cons, beq_false_of_ne hk]
      · rw [List.filter_cons_of_pos (by simpa using ha), List.lookup_cons, List.lookup_cons, ih]

theorem lookup_put (e : ManifestEntry) (key value k : String) :
    (e.put key value).fields.lookup k = if k = key then some value else e.fields.lookup k := by
  unfold ManifestEntry.put
  dsimp only
  by_cases hk : k = key
  · rw [if_pos hk, hk, List.lookup_cons_self]
  · rw [if_neg hk, List.lookup_cons, beq_false_of_ne hk]
    exact lookup_filter_ne hk

theorem lookup_putAll (fields : List (String × String)) (e : ManifestEntry) (k : String) :
    (e.putAll fields).fields.lookup k = writtenOver fields (fun key => e.fields.lookup key) k := by
  induction fields generalizing e with
  | nil => rfl
  | cons f fields ih =>
      rw [ManifestEntry.putAll, List.foldl_cons, writtenOver, List.foldl_cons]
      have hput : (fun key => (e.put f.1 f.2).fields.lookup key)
          = fun key => if key = f.1 then some f.2 else e.fields.lookup key :=
        funext (lookup_put e f.1 f.2)
      rw [← hput]
      exact ih _

theorem putAll_id (fields : List (String × String)) (e : ManifestEntry) :
    (e.putAll fields).id = e.id := by
  induction fields generalizing e with
  | nil => rfl
  | cons f fields ih => exact ih _

theorem find?_putEntry (e : ManifestEntry) (profiles : List ManifestEntry) (k : String) :
    (putEntry e profiles).find? (·.id = k)
      = if k = e.id then some e else profiles.find? (·.id = k) := by
  induction profiles with
  | nil =>
      by_cases hk : k = e.id
      · simp [putEntry, hk]
      · simp [putEntry, hk, Ne.symm hk]
  | cons p profiles ih =>
      rw [putEntry]
      by_cases hp : p.id = e.id
      · rw [if_pos hp]
        by_cases hk : k = e.id
        · simp [hk]
        · have hne : ¬ e.id = k := fun h => hk h.symm
          simp [hk, hne, hp]
      · rw [if_neg hp]
        by_cases hpk : p.id = k
        · have hk : ¬ k = e.id := fun h => hp (hpk.trans h)
          simp [hpk, hk]
        · simpa [hpk] using ih

namespace Manifest

variable {m m' : Manifest} {id k key : String}

theorem entry_id {e : ManifestEntry} (h : m.entry id = some e) : e.id = id := by
  simpa using List.find?_some h

theorem entry_filter (k : String) : (m.profiles.filter (·.id ≠ id)).find? (·.id = k)
    = if k = id then none else m.entry k := by
  unfold entry
  rw [List.find?_filter]
  by_cases hk : k = id
  · rw [if_pos hk, List.find?_eq_none]
    intro p _
    simp [hk]
  · rw [if_neg hk]
    congr 1
    funext p
    by_cases hp : p.id = k
    · simp [hp, hk]
    · simp [hp]

theorem entry_upsert {server username now : String} {makeLast : Bool} :
    (m.upsertProfileManifest id server username now makeLast).entry k
      = if k = id then some (((m.entry id).getD ⟨id, []⟩).putAll [("server", server),
          ("username", username), ("updated_at", now)]) else m.entry k := by
  have hid : ((m.entry id).getD ⟨id, []⟩).id = id := by
    cases he : m.entry id with
    | none => rfl
    | some e => exact entry_id he
  unfold upsertProfileManifest
  dsimp only
  unfold entry
  rw [find?_putEntry, putAll_id]
  change (if k = ((m.entry id).getD ⟨id, []⟩).id then _ else _) = _
  rw [hid]

end Manifest

open Manifest

/-- Whom an update takes away. -/
def ManifestUpdate.drops : ManifestUpdate → List String
  | .delete id => [id]
  | .move id => [id]
  | _ => []

/-- Whom it adds. -/
def ManifestUpdate.adds : ManifestUpdate → List String
  | .upsert id _ _ _ _ => [id]
  | _ => []

theorem entry_apply {m m' : Manifest} {u : ManifestUpdate} (h : u.apply m = some m')
    (k : String) : (m'.entry k ≠ none ↔ k ∈ u.adds ∨ k ∉ u.drops ∧ m.entry k ≠ none)
      ∧ ∀ key, m'.field k key = u.over m.field k key := by
  cases u with
  | upsert id server username now makeLast =>
      cases h
      unfold field
      rw [entry_upsert]
      by_cases hk : k = id
      · subst hk
        refine ⟨by simp [ManifestUpdate.adds], fun key => ?_⟩
        rw [if_pos rfl, Option.bind_some, lookup_putAll, ManifestUpdate.over, if_pos rfl]
        congr 1
        funext key
        cases m.entry k <;> rfl
      · rw [if_neg hk]
        refine ⟨by simp [ManifestUpdate.adds, ManifestUpdate.drops, hk], fun key => ?_⟩
        rw [ManifestUpdate.over, if_neg hk]
  | update id fields now =>
      obtain ⟨e, he, rfl⟩ := Option.map_eq_some_iff.mp h
      have hentry : ({ m with
          profiles := putEntry (e.putAll (fields ++ [("updated_at", now)])) m.profiles } :
            Manifest).entry k
          = if k = id then some (e.putAll (fields ++ [("updated_at", now)])) else m.entry k := by
        unfold entry
        rw [find?_putEntry, putAll_id, entry_id he]
      unfold field
      rw [hentry]
      by_cases hk : k = id
      · subst hk
        refine ⟨by simp [ManifestUpdate.drops, he], fun key => ?_⟩
        rw [if_pos rfl, Option.bind_some, lookup_putAll, ManifestUpdate.over, if_pos rfl]
        congr 1
        funext key
        rw [he, Option.bind_some]
      · rw [if_neg hk]
        refine ⟨by simp [ManifestUpdate.adds, ManifestUpdate.drops], fun key => ?_⟩
        rw [ManifestUpdate.over, if_neg hk]
  | delete id | move id =>
      cases h
      show ((m.profiles.filter (·.id ≠ id)).find? (·.id = k) ≠ none ↔ _)
        ∧ ∀ key, ((m.profiles.filter (·.id ≠ id)).find? (·.id = k)).bind _ = _
      rw [entry_filter k]
      by_cases hk : k = id
      · simp [ManifestUpdate.adds, ManifestUpdate.drops, ManifestUpdate.over, hk]
      · rw [if_neg hk]
        refine ⟨by simp [ManifestUpdate.adds, ManifestUpdate.drops, hk], fun key => ?_⟩
        rw [ManifestUpdate.over, if_neg hk]
        rfl

/-! ## What is still to be done -/

namespace ProfileInstr

def adds : ProfileInstr → List String
  | write u => u.adds
  | addSession id => [id]
  | makeDir id => [id]
  | renameDir _ new => [new]
  | _ => []

def drops : ProfileInstr → List String
  | write u => u.drops
  | removeDir id => [id]
  | renameDir old _ => [old]
  | _ => []

end ProfileInstr

namespace ProfileOp

variable {op : ProfileOp} {ins : ProfileInstr} {id : String}

theorem adds_loginProgram (id : String) {server username now : String} {opened : Bool} {k : String}
    (h : ins ∈ loginProgram k server username now opened) :
    (id ∈ ins.adds → id = k) ∧ id ∉ ins.drops := by
  cases opened <;>
    simp only [loginProgram, change, if_true, Bool.false_eq_true, if_false, List.cons_append,
      List.nil_append, List.mem_cons, List.not_mem_nil, or_false] at h
  · subst h
    simp [ProfileInstr.adds, ProfileInstr.drops]
  · rcases h with rfl | rfl | rfl | rfl | rfl <;>
      simp [ProfileInstr.adds, ProfileInstr.drops, ManifestUpdate.adds, ManifestUpdate.drops]

/-- A program adds and takes away what its request says. -/
theorem mem_program (h : ins ∈ op.program) :
    (id ∈ ins.adds → id ∈ op.adds) ∧ (id ∈ ins.drops → id ∈ op.drops) := by
  cases op with
  | login k server username now opened =>
      have hlogin := adds_loginProgram id h
      exact ⟨fun ha => List.mem_singleton.mpr (hlogin.1 ha), fun hd => absurd hd hlogin.2⟩
  | upsert =>
      simp only [program, change, List.mem_cons, List.not_mem_nil, or_false] at h
      rcases h with rfl | rfl | rfl <;>
        simp [ProfileInstr.adds, ProfileInstr.drops, ManifestUpdate.adds, ManifestUpdate.drops,
          ProfileOp.adds]
  | update =>
      simp only [program, change, List.mem_cons, List.not_mem_nil, or_false] at h
      rcases h with rfl | rfl <;>
        simp [ProfileInstr.adds, ProfileInstr.drops, ManifestUpdate.adds, ManifestUpdate.drops]
  | delete =>
      simp only [program, change, List.cons_append, List.nil_append, List.mem_cons,
        List.not_mem_nil, or_false] at h
      rcases h with rfl | rfl | rfl | rfl <;>
        simp [ProfileInstr.adds, ProfileInstr.drops, ManifestUpdate.adds, ManifestUpdate.drops,
          ProfileOp.drops]
  | changeServer old new oldServer newServer username now wasActive renamed opened carry =>
      cases renamed with
      | false =>
          rcases List.mem_cons.mp h with rfl | h
          · simp [ProfileInstr.adds, ProfileInstr.drops]
          · have hlogin := adds_loginProgram id h
            exact ⟨fun ha => List.mem_singleton.mpr (hlogin.1 ha), fun hd => absurd hd hlogin.2⟩
      | true =>
          simp only [program, change, if_true, List.cons_append, List.nil_append, 
            List.mem_cons, List.mem_append] at h
          rcases h with rfl | rfl | rfl | rfl | rfl | rfl | h | rfl | h
          · simp [ProfileInstr.adds, ProfileInstr.drops]
          · simp [ProfileInstr.adds, ProfileInstr.drops, ProfileOp.adds, ProfileOp.drops]
          · simp [ProfileInstr.adds, ProfileInstr.drops]
          · simp [ProfileInstr.adds, ProfileInstr.drops, ManifestUpdate.adds, ManifestUpdate.drops,
              ProfileOp.drops]
          · simp [ProfileInstr.adds, ProfileInstr.drops]
          · simp [ProfileInstr.adds, ProfileInstr.drops, ManifestUpdate.adds, ManifestUpdate.drops,
              ProfileOp.adds]
          · split at h
            · cases h
            · simp only [List.mem_cons, List.not_mem_nil, or_false] at h
              rcases h with rfl | rfl <;>
                simp [ProfileInstr.adds, ProfileInstr.drops, ManifestUpdate.adds,
                  ManifestUpdate.drops]
          · simp [ProfileInstr.adds, ProfileInstr.drops, ProfileOp.adds]
          · have hlogin := adds_loginProgram id h
            exact ⟨fun ha => List.mem_singleton.mpr (hlogin.1 ha), fun hd => absurd hd hlogin.2⟩

end ProfileOp

namespace ProfileWorld

variable {w w' w₁ : ProfileWorld} {l : ProfileLabel} {i : Nat} {t : ProfileTask}
  {ins : ProfileInstr} {id : String} {op : ProfileOp}

/-- Somebody has still to do this. -/
def Pending (w : ProfileWorld) (ins : ProfileInstr) : Prop := ∃ t ∈ w.tasks, ins ∈ t.rest

/-- Whoever writes has loaded what is there, and no profile is added while it is being taken away
or taken away while it is being added. -/
def InOrder (w : ProfileWorld) : ProfileLabel → Prop
  | .request op =>
      (∀ id ∈ op.adds, ∀ t ∈ w.tasks, ∀ ins ∈ t.rest, id ∉ ins.drops)
        ∧ ∀ id ∈ op.drops, ∀ t ∈ w.tasks, ∀ ins ∈ t.rest, id ∉ ins.adds
  | .run i => ∀ t ∈ w.tasks[i]?, (∃ u, t.rest.head? = some (.write u)) → t.loaded = w.manifest

/-- The first thing that a thread has still to do is a write. -/
def writes (t : ProfileTask) : Bool :=
  match t.rest with
  | .write _ :: _ => true
  | _ => false

theorem writes_iff : writes t = true ↔ ∃ u, t.rest.head? = some (.write u) := by
  obtain ⟨rest, loaded⟩ := t
  cases rest with
  | nil => simp [writes]
  | cons ins rest => cases ins <;> simp [writes]

instance (w : ProfileWorld) (l : ProfileLabel) : Decidable (w.InOrder l) :=
  match l with
  | .request _ => inferInstanceAs (Decidable (_ ∧ _))
  | .run i =>
      have : ∀ t : ProfileTask, Decidable (∃ u, t.rest.head? = some (.write u)) := fun _ =>
        decidable_of_iff _ writes_iff
      inferInstanceAs (Decidable (∀ t ∈ w.tasks[i]?, _ → _))

/-! ## One step -/

inductive StepCase (w : ProfileWorld) : ProfileLabel → ProfileWorld → Prop where
  | request {op : ProfileOp} (h : w.refused op = false) : StepCase w (.request op) (w.request op)
  | run {i : Nat} {t : ProfileTask} {ins : ProfileInstr} {rest : List ProfileInstr}
      {loaded : Manifest} {w₁ : ProfileWorld} (ht : w.tasks[i]? = some t)
      (hrest : t.rest = ins :: rest) (hins : w.instr t.loaded ins = some w₁) :
      StepCase w (.run i) { w₁ with tasks := w.tasks.set i ⟨rest, loaded⟩ }

theorem write_tasks (u : ManifestUpdate) (loaded : Manifest) : (w.write u loaded).tasks = w.tasks := by
  unfold write
  split <;> rfl

theorem instr_tasks {loaded : Manifest} (h : w.instr loaded ins = some w₁) : w₁.tasks = w.tasks := by
  cases ins with
  | write u =>
      cases h
      exact write_tasks u loaded
  | renameDir =>
      obtain ⟨-, h⟩ := Option.ite_none_right_eq_some.mp h
      cases h
      rfl
  | _ =>
      cases h
      rfl

theorem step_cases (h : w.step l = some w') : w.StepCase l w' := by
  cases l with
  | request op =>
      rw [step] at h
      split at h
      · cases h
      · rename_i hok
        cases h
        exact .request (Bool.of_not_eq_true hok)
  | run i =>
      obtain ⟨t, ht, h⟩ := Option.bind_eq_some_iff.mp h
      unfold stepTask at h
      split at h
      · cases h
      · rename_i ins rest hrest
        obtain ⟨w₁, hins, rfl⟩ := Option.map_eq_some_iff.mp h
        rw [instr_tasks hins]
        exact .run ht hrest hins

section Run

variable {rest : List ProfileInstr} {loaded : Manifest} (ht : w.tasks[i]? = some t)
  (hrest : t.rest = ins :: rest)

include ht hrest

theorem pending_run {x : ProfileInstr}
    (h : Pending { w₁ with tasks := w.tasks.set i ⟨rest, loaded⟩ } x) : w.Pending x := by
  obtain ⟨t', ht', hx⟩ := h
  rcases List.mem_or_eq_of_mem_set ht' with ht' | rfl
  · exact ⟨t', ht', hx⟩
  · refine ⟨t, List.mem_of_getElem? ht, ?_⟩
    rw [hrest]
    exact List.mem_cons_of_mem _ hx

theorem pending_of_pending {x : ProfileInstr} (h : w.Pending x) (hne : x ≠ ins) :
    Pending { w₁ with tasks := w.tasks.set i ⟨rest, loaded⟩ } x := by
  obtain ⟨t', ht', hx⟩ := h
  rcases Tasks.eq_or_mem_set (b := ⟨rest, loaded⟩) ht ht' with rfl | ht'
  · rw [hrest] at hx
    exact ⟨_, Tasks.mem_set_self ht _, (List.mem_cons.mp hx).resolve_left hne⟩
  · exact ⟨t', ht', hx⟩

theorem pending_head : w.Pending ins := by
  refine ⟨t, List.mem_of_getElem? ht, ?_⟩
  rw [hrest]
  exact List.mem_cons_self

end Run

theorem pending_request {x : ProfileInstr} :
    (w.request op).Pending x ↔ w.Pending x ∨ x ∈ op.program := by
  constructor
  · rintro ⟨t, ht, hx⟩
    rcases List.mem_append.mp ht with ht | ht
    · exact .inl ⟨t, ht, hx⟩
    · cases List.mem_singleton.mp ht
      exact .inr hx
  · rintro (⟨t, ht, hx⟩ | hx)
    · exact ⟨t, List.mem_append_left _ ht, hx⟩
    · exact ⟨_, List.mem_append_right _ (List.mem_singleton_self _), hx⟩

/-! ## What holds in every state -/

structure Settled (f : String → String → Option String) (w : ProfileWorld) : Prop where
  /-- Nobody is both to be added and to be taken away. -/
  apart : ∀ x y, w.Pending x → w.Pending y → ∀ id ∈ x.adds, id ∉ y.drops
  kept : ∀ id ∈ w.kept, w.manifest.entry id ≠ none ∧ ∀ x, w.Pending x → id ∉ x.drops
  unadded : ∀ id ∈ w.deleted, ∀ x, w.Pending x → id ∉ x.adds
  session : ∀ id ∈ w.deleted, id ∈ w.sessions → w.Pending (.removeSession id)
  entry : ∀ id ∈ w.deleted, w.manifest.entry id ≠ none → w.Pending (.write (.delete id))
  dir : ∀ id ∈ w.deleted, id ∈ w.dirs → w.Pending (.removeDir id)
  fields : ∀ id key, w.manifest.field id key = lastWritten f w.log id key

variable {f : String → String → Option String}

theorem settled_init (manifest : Manifest) (sessions dirs : List String) :
    Settled manifest.field (init manifest sessions dirs) := by
  have hnobody : ∀ x, ¬ (init manifest sessions dirs).Pending x := by
    rintro x ⟨t, ht, -⟩
    cases ht
  refine ⟨fun x _ hx => absurd hx (hnobody x), fun id hid => ⟨?_, fun x hx => absurd hx (hnobody x)⟩,
    fun _ h => absurd h List.not_mem_nil, fun _ h => absurd h List.not_mem_nil,
    fun _ h => absurd h List.not_mem_nil, fun _ h => absurd h List.not_mem_nil, fun _ _ => rfl⟩
  obtain ⟨e, he, rfl⟩ := List.mem_map.mp hid
  intro hnone
  simpa using List.find?_eq_none.mp hnone e he

theorem adds_disjoint_drops (h : w.refused op = false) (ha : id ∈ op.adds) : id ∉ op.drops := by
  cases op with
  | changeServer old new oldServer newServer username now wasActive renamed opened carry =>
      have hne : old ≠ new := by
        intro heq
        simp [refused, heq] at h
      cases renamed with
      | false => simp [ProfileOp.drops]
      | true =>
          cases List.mem_singleton.mp ha
          simpa [ProfileOp.drops] using Ne.symm hne
  | delete => cases ha
  | _ => simp [ProfileOp.drops]

theorem Settled.request (h : Settled f w) (hok : w.InOrder (.request op))
    (hs : w.refused op = false) : Settled f (w.request op) := by
  obtain ⟨hadds, hdrops⟩ := hok
  have hpending : ∀ {x}, w.Pending x → (w.request op).Pending x :=
    fun hx => pending_request.mpr (.inl hx)
  -- whoever is still deleted is not added now
  have hdeleted : ∀ id ∈ (w.request op).deleted, id ∉ op.adds
      ∧ (id ∈ w.deleted ∨ op = .delete id) := by
    intro id hid
    obtain ⟨hid, hnew⟩ := List.mem_filter.mp hid
    refine ⟨by simpa using hnew, ?_⟩
    cases op with
    | delete k =>
        rcases List.mem_cons.mp hid with rfl | hid
        · exact .inr rfl
        · exact .inl hid
    | _ => exact .inl hid
  refine ⟨fun x y hx hy id hxa hyd => ?_, fun id hid => ?_, fun id hid x hx hxa => ?_,
    fun id hid hsession => ?_, fun id hid hentry => ?_, fun id hid hdir => ?_, h.fields⟩
  · rcases pending_request.mp hx with hx | hx
    · rcases pending_request.mp hy with hy | hy
      · exact h.apart x y hx hy id hxa hyd
      · obtain ⟨t, ht, hx⟩ := hx
        exact hdrops id ((ProfileOp.mem_program hy).2 hyd) t ht x hx hxa
    · have hid := (ProfileOp.mem_program hx).1 hxa
      rcases pending_request.mp hy with hy | hy
      · obtain ⟨t, ht, hy⟩ := hy
        exact hadds id hid t ht y hy hyd
      · exact adds_disjoint_drops hs hid ((ProfileOp.mem_program hy).2 hyd)
  · obtain ⟨hid, hnot⟩ := List.mem_filter.mp hid
    obtain ⟨hentry, hnone⟩ := h.kept id hid
    refine ⟨hentry, fun x hx hxd => ?_⟩
    rcases pending_request.mp hx with hx | hx
    · exact hnone x hx hxd
    · have hdrop := (ProfileOp.mem_program hx).2 hxd
      simp [hdrop] at hnot
  · obtain ⟨hnot, hold⟩ := hdeleted id hid
    rcases pending_request.mp hx with hx' | hx'
    · rcases hold with hold | rfl
      · exact h.unadded id hold x hx' hxa
      · obtain ⟨t, ht, hx'⟩ := hx'
        exact hdrops id (List.mem_singleton_self _) t ht x hx' hxa
    · exact hnot ((ProfileOp.mem_program hx').1 hxa)
  · rcases (hdeleted id hid).2 with hold | rfl
    · exact hpending (h.session id hold hsession)
    · exact pending_request.mpr (.inr (by simp [ProfileOp.program]))
  · rcases (hdeleted id hid).2 with hold | rfl
    · exact hpending (h.entry id hold hentry)
    · exact pending_request.mpr (.inr (by simp [ProfileOp.program, ProfileOp.change]))
  · rcases (hdeleted id hid).2 with hold | rfl
    · exact hpending (h.dir id hold hdir)
    · exact pending_request.mpr (.inr (by simp [ProfileOp.program, ProfileOp.change]))

/-- What a thread does besides changing the manifest: sessions and directories. -/
structure Beside (w : ProfileWorld) (ins : ProfileInstr) (w₁ : ProfileWorld) : Prop where
  manifest : w₁.manifest = w.manifest
  log : w₁.log = w.log
  kept : w₁.kept = w.kept
  deleted : w₁.deleted = w.deleted
  session : ∀ id, id ∈ w₁.sessions → id ∉ ins.adds → id ∈ w.sessions ∧ ins ≠ .removeSession id
  dir : ∀ id, id ∈ w₁.dirs → id ∉ ins.adds → id ∈ w.dirs ∧ ins ≠ .removeDir id

theorem instr_beside {loaded : Manifest} (h : w.instr loaded ins = some w₁)
    (hins : ∀ u, ins ≠ .write u) : Beside w ins w₁ := by
  cases ins with
  | write u => exact absurd rfl (hins u)
  | load =>
      cases h
      exact ⟨rfl, rfl, rfl, rfl, fun _ hid _ => ⟨hid, by simp⟩, fun _ hid _ => ⟨hid, by simp⟩⟩
  | addSession k =>
      cases h
      refine ⟨rfl, rfl, rfl, rfl, fun id hid hne => ⟨?_, by simp⟩, fun _ hid _ => ⟨hid, by simp⟩⟩
      rcases List.mem_append.mp hid with hid | hid
      · exact (List.mem_filter.mp hid).1
      · exact absurd hid hne
  | removeSession k =>
      cases h
      refine ⟨rfl, rfl, rfl, rfl, fun id hid _ => ?_, fun _ hid _ => ⟨hid, by simp⟩⟩
      obtain ⟨hid, hne⟩ := List.mem_filter.mp hid
      exact ⟨hid, fun heq => by simp [ProfileInstr.removeSession.inj heq] at hne⟩
  | makeDir k =>
      cases h
      refine ⟨rfl, rfl, rfl, rfl, fun _ hid _ => ⟨hid, by simp⟩, fun id hid hne => ⟨?_, by simp⟩⟩
      dsimp only at hid
      split at hid
      · exact hid
      · exact (List.mem_append.mp hid).resolve_right hne
  | removeDir k =>
      cases h
      refine ⟨rfl, rfl, rfl, rfl, fun _ hid _ => ⟨hid, by simp⟩, fun id hid _ => ?_⟩
      obtain ⟨hid, hne⟩ := List.mem_filter.mp hid
      exact ⟨hid, fun heq => by simp [ProfileInstr.removeDir.inj heq] at hne⟩
  | renameDir old new =>
      obtain ⟨-, h⟩ := Option.ite_none_right_eq_some.mp h
      cases h
      refine ⟨rfl, rfl, rfl, rfl, fun _ hid _ => ⟨hid, by simp⟩, fun id hid hne => ⟨?_, by simp⟩⟩
      rcases List.mem_append.mp hid with hid | hid
      · exact (List.mem_filter.mp hid).1
      · exact absurd hid hne

section Run

variable {rest : List ProfileInstr} {loaded : Manifest} (ht : w.tasks[i]? = some t)
  (hrest : t.rest = ins :: rest)

include ht hrest

theorem Settled.beside (h : Settled f w) (hb : Beside w ins w₁) (hins : ∀ u, ins ≠ .write u) :
    Settled f { w₁ with tasks := w.tasks.set i ⟨rest, loaded⟩ } := by
  have hhead : w.Pending ins := pending_head ht hrest
  refine ⟨fun x y hx hy => h.apart x y (pending_run ht hrest hx) (pending_run ht hrest hy),
    fun id hid => ?_, fun id hid x hx => ?_, fun id hid hs => ?_, fun id hid he => ?_,
    fun id hid hd => ?_, fun id key => ?_⟩
  · rw [hb.kept] at hid
    refine ⟨by rw [hb.manifest]; exact (h.kept id hid).1, fun x hx => ?_⟩
    exact (h.kept id hid).2 x (pending_run ht hrest hx)
  · rw [hb.deleted] at hid
    exact h.unadded id hid x (pending_run ht hrest hx)
  · rw [hb.deleted] at hid
    obtain ⟨hold, hne⟩ := hb.session id hs (h.unadded id hid ins hhead)
    exact pending_of_pending ht hrest (h.session id hid hold) hne.symm
  · rw [hb.deleted] at hid
    rw [hb.manifest] at he
    exact pending_of_pending ht hrest (h.entry id hid he) (hins _).symm
  · rw [hb.deleted] at hid
    obtain ⟨hold, hne⟩ := hb.dir id hd (h.unadded id hid ins hhead)
    exact pending_of_pending ht hrest (h.dir id hid hold) hne.symm
  · rw [hb.manifest, hb.log]
    exact h.fields id key

/-- A write of what was made of the manifest that is there. -/
theorem Settled.write {u : ManifestUpdate} (h : Settled f w) (hu : ins = .write u) :
    Settled f { w.write u w.manifest with tasks := w.tasks.set i ⟨rest, loaded⟩ } := by
  subst hu
  have hhead : w.Pending (.write u) := pending_head ht hrest
  have hrun : ∀ {w₁ : ProfileWorld} {x},
      Pending { w₁ with tasks := w.tasks.set i ⟨rest, loaded⟩ } x → w.Pending x :=
    pending_run ht hrest
  have hleft : ∀ {w₁ : ProfileWorld} {x}, w.Pending x → x ≠ .write u →
      Pending { w₁ with tasks := w.tasks.set i ⟨rest, loaded⟩ } x := pending_of_pending ht hrest
  unfold ProfileWorld.write
  cases happly : u.apply w.manifest with
  | none =>
      -- only an update of somebody who is not there writes nothing
      have hne : ∀ id, ProfileInstr.write (.delete id) ≠ .write u := by
        rintro id heq
        cases heq
        cases happly
      exact ⟨fun x y hx hy => h.apart x y (hrun hx) (hrun hy),
        fun id hid => ⟨(h.kept id hid).1, fun x hx => (h.kept id hid).2 x (hrun hx)⟩,
        fun id hid x hx => h.unadded id hid x (hrun hx),
        fun id hid hs => hleft (h.session id hid hs) (by simp),
        fun id hid he => hleft (h.entry id hid he) (hne id),
        fun id hid hd => hleft (h.dir id hid hd) (by simp), h.fields⟩
  | some manifest =>
      have hentry := fun k => (entry_apply happly k).1
      refine ⟨fun x y hx hy => h.apart x y (hrun hx) (hrun hy), fun id hid => ?_,
        fun id hid x hx => h.unadded id hid x (hrun hx),
        fun id hid hs => hleft (h.session id hid hs) (by simp), fun id hid he => ?_,
        fun id hid hd => hleft (h.dir id hid hd) (by simp), fun id key => ?_⟩
      · have hcases : id ∈ u.adds ∨ id ∈ w.kept := by
          cases u with
          | upsert => exact (List.mem_cons.mp hid).imp_left List.mem_singleton.mpr
          | _ => exact .inr hid
        rcases hcases with hadd | hkept
        · refine ⟨(hentry id).mpr (.inl hadd), fun x hx => ?_⟩
          exact h.apart _ x hhead (hrun hx) id hadd
        · obtain ⟨hthere, hnone⟩ := h.kept id hkept
          exact ⟨(hentry id).mpr (.inr ⟨hnone _ hhead, hthere⟩), fun x hx => hnone x (hrun hx)⟩
      · have hold := ((hentry id).mp he).resolve_left (h.unadded id hid _ hhead)
        refine hleft (h.entry id hid hold.2) ?_
        rintro heq
        cases heq
        exact hold.1 (List.mem_singleton_self _)
      · change manifest.field id key = lastWritten f (w.log ++ [u]) id key
        rw [(entry_apply happly id).2 key, lastWritten, List.foldl_append, List.foldl_cons,
          List.foldl_nil]
        have hfields : w.manifest.field = lastWritten f w.log :=
          funext fun id => funext fun key => h.fields id key
        rw [hfields]
        rfl

end Run

theorem Settled.step (h : Settled f w) (hok : w.InOrder l) (hs : w.StepCase l w') :
    Settled f w' := by
  cases hs with
  | request hs => exact h.request hok hs
  | @run i t ins rest loaded w₁ ht hrest hins =>
      cases ins with
      | write u =>
          have hloaded : t.loaded = w.manifest := hok t ht ⟨u, by rw [hrest]; rfl⟩
          cases hins
          rw [hloaded]
          exact h.write ht hrest rfl
      | _ => exact h.beside ht hrest (instr_beside hins (by simp)) (by simp)

theorem settled_reachable {manifest : Manifest} {sessions dirs : List String}
    (hr : Lts.Reach step InOrder (init manifest sessions dirs) w) : Settled manifest.field w :=
  hr.invariant (settled_init _ _ _) fun _ _ _ _ h hok hs => h.step hok (step_cases hs)

/-- **No update of the manifest is lost**: when all threads have finished, each field has what was
last written to it, who was kept has an entry, and nothing is left of who was deleted. -/
theorem manifest_kept {manifest : Manifest} {sessions dirs : List String}
    (hr : Lts.Reach step InOrder (init manifest sessions dirs) w)
    (hover : ∀ t ∈ w.tasks, t.rest = []) :
    (∀ id key, w.manifest.field id key = lastWritten manifest.field w.log id key)
      ∧ (∀ id ∈ w.kept, w.manifest.entry id ≠ none)
      ∧ ∀ id ∈ w.deleted, w.manifest.entry id = none ∧ id ∉ w.sessions ∧ id ∉ w.dirs := by
  have h := settled_reachable hr
  have hnobody : ∀ x, ¬ w.Pending x := by
    rintro x ⟨t, ht, hx⟩
    rw [hover t ht] at hx
    cases hx
  refine ⟨h.fields, fun id hid => (h.kept id hid).1, fun id hid => ⟨?_, fun hs => ?_, fun hd => ?_⟩⟩
  · by_contra hentry
    exact hnobody _ (h.entry id hid hentry)
  · exact hnobody _ (h.session id hid hs)
  · exact hnobody _ (h.dir id hid hd)

section Example

def annAndBob : Manifest :=
  ⟨[⟨"ann", [("server", "https://one")]⟩, ⟨"bob", [("server", "https://one")]⟩], "ann"⟩

def start : ProfileWorld := init annAndBob ["ann", "bob"] ["ann", "bob"]

/-- Bob is moved to another server on a worker, and when that has loaded the manifest to take the old
entry out, Ann is renamed. -/
def overwritten : List ProfileLabel :=
  [.request (.changeServer "bob" "bob2" "https://one" "https://two" "bob" "10:00" false true true []),
    .run 0, .run 0, .run 0, .request (.update "ann" [("localName", "Anna")] "10:00"), .run 1, .run 1]
    ++ List.replicate 9 (.run 0)

/-- Bob logs in, is deleted, and the login is completed. -/
def putBack : List ProfileLabel :=
  [.request (.login "bob" "https://one" "bob" "10:00" true), .run 0, .request (.delete "bob"),
    .run 1, .run 1, .run 1, .run 1, .run 0, .run 0, .run 0, .run 0]

def finished (ls : List ProfileLabel) : ProfileWorld := (Lts.exec step start ls).getD start

/-- Ann has been renamed, and has no name; Bob was deleted, and is there. -/
theorem manifest_lost :
    (∀ ls ∈ [overwritten, putBack], (Lts.exec step start ls).isSome = true
      ∧ ∀ t ∈ (finished ls).tasks, t.rest = [])
      ∧ ((finished overwritten).log.map fun u => u.over (fun _ _ => none) "ann" "localName")
        = [some "Anna", none, none, none]
      ∧ (finished overwritten).manifest.field "ann" "localName" = none
      ∧ (finished putBack).deleted = ["bob"]
      ∧ (finished putBack).manifest.entry "bob" ≠ none ∧ (finished putBack).sessions = ["ann", "bob"]
      ∧ (finished putBack).dirs = ["ann", "bob"] := by
  decide +kernel

/-- One after the other. -/
def orderly : List ProfileLabel :=
  [.request (.update "bob" [("avatar", "iVBO")] "10:00"), .run 0, .run 0,
    .request (.update "ann" [("localName", "Anna")] "10:00"), .run 1, .run 1,
    .request (.delete "bob"), .run 2, .run 2, .run 2, .run 2]

theorem manifest_kept_orderly :
    (finished orderly).manifest.field "ann" "localName" = some "Anna"
      ∧ (finished orderly).manifest.entry "bob" = none := by
  have h : (Lts.execWhile step InOrder start orderly).isSome = true := by decide +kernel
  have hkept := manifest_kept (Lts.reach_exec h) (by decide +kernel)
  exact ⟨(hkept.1 "ann" "localName").trans (by decide +kernel),
    (hkept.2.2 "bob" (by decide +kernel)).1⟩

end Example

end ProfileWorld

end Paranoia
