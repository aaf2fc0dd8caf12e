import Mathlib.Data.List.Nodup
import Paranoia.Lib.Tasks
import Paranoia.Server.ConfigStore

/-!
# What is in the file of the configuration in the end

Each handler that has changed the configuration writes it to the file afterwards, but not under the
lock, so an older text can reach the file after a newer one, two can be written into each other, and
a registration says nothing of an error. As long as whoever opens the file is alone with it and
either writes what is in memory or leaves another to do so, the file has the configuration in memory
when all have finished (`config_kept`).
-/

namespace Paranoia

/-- The handler has changed the configuration and has still to open the file. -/
def ConfigPoint.Owing : ConfigPoint → Bool
  | .serialize => true
  | .write _ => true
  | _ => false

/-- It has opened the file and put nothing in it yet. -/
def ConfigPoint.Putting : ConfigPoint → Bool
  | .put _ => true
  | _ => false

def ConfigPoint.Over : ConfigPoint → Bool
  | .answered _ _ => true
  | _ => false

/-- The handler has changed the configuration, as far as its answer tells. -/
def ConfigPoint.Changed : ConfigPoint → Bool
  | .change => false
  | .answered success _ => success
  | _ => true

/-- The configuration after these changes. -/
def replay (cfg : ServerConfig) (changes : List ConfigChange) : ServerConfig :=
  changes.foldl (fun cfg change => match change.apply cfg with
    | .ok cfg => cfg
    | .error _ => cfg) cfg

namespace ConfigWorld

variable {w w' : ConfigWorld} {l : ConfigLabel} {i : Nat} {t : ConfigTask} {memory : ServerConfig}
  {file : List Char}

/-! ## What a step does -/

inductive StepCase (w : ConfigWorld) : ConfigLabel → ConfigWorld → Prop where
  | request {change : ConfigChange} :
      StepCase w (.request change) { w with tasks := w.tasks ++ [⟨change, .change⟩] }
  | refused {i : Nat} {t : ConfigTask} {message : String} (ht : w.tasks[i]? = some t)
      (hpoint : t.point = .change) :
      StepCase w (.run i) (w.setTask i t (.answered false message))
  | changed {i : Nat} {t : ConfigTask} {cfg : ServerConfig} (ht : w.tasks[i]? = some t)
      (hpoint : t.point = .change) (happly : t.change.apply w.memory = .ok cfg) :
      StepCase w (.run i) ({ w with memory := cfg, applied := w.applied ++ [i] }.setTask i t
        (afterChange cfg t.change))
  | serialized {i : Nat} {t : ConfigTask} (ht : w.tasks[i]? = some t)
      (hpoint : t.point = .serialize) :
      StepCase w (.run i) (w.setTask i t (.write w.memory.toPrettyJson))
  | opened {i : Nat} {t : ConfigTask} {data : List Char} (ht : w.tasks[i]? = some t)
      (hpoint : t.point = .write data) :
      StepCase w (.run i) ({ w with file := [] }.setTask i t (.put data))
  | put {i : Nat} {t : ConfigTask} {data : List Char} (ht : w.tasks[i]? = some t)
      (hpoint : t.point = .put data) :
      StepCase w (.run i)
        ({ w with file := overwrite w.file data }.setTask i t (.answered true "OK"))
  | failed {i written : Nat} {t : ConfigTask} {file : List Char} (ht : w.tasks[i]? = some t)
      (hpoint : t.point.Changed = true) (hfile : t.point.Putting = true ∨ file = w.file) :
      StepCase w (.writeError i written) ({ w with file := file }.setTask i t (afterError t.change))

theorem step_cases (h : w.step l = some w') : w.StepCase l w' := by
  cases l with
  | request change => cases h; exact .request
  | run i =>
      obtain ⟨t, ht, h⟩ := Option.bind_eq_some_iff.mp h
      unfold stepTask at h
      split at h
      · rename_i hpoint
        split at h <;> cases h
        · exact .refused ht hpoint
        · rename_i happly
          exact .changed ht hpoint happly
      · rename_i hpoint
        cases h
        exact .serialized ht hpoint
      · rename_i data hpoint
        cases h
        exact .opened ht hpoint
      · rename_i data hpoint
        cases h
        exact .put ht hpoint
      · cases h
  | writeError i written =>
      obtain ⟨t, ht, h⟩ := Option.bind_eq_some_iff.mp h
      unfold errorTask at h
      split at h
      · rename_i hpoint
        cases h
        exact .failed ht (by rw [hpoint]; rfl) (.inr rfl)
      · rename_i hpoint
        cases h
        exact .failed ht (by rw [hpoint]; rfl) (.inl (by rw [hpoint]; rfl))
      · cases h

/-! ## The changes in memory -/

/-- The changes that were made, in order. -/
def changes (w : ConfigWorld) : List ConfigChange :=
  w.applied.filterMap (fun i => (w.tasks[i]?).map ConfigTask.change)

structure Applied (memory : ServerConfig) (w : ConfigWorld) : Prop where
  nodup : w.applied.Nodup
  begun : ∀ i ∈ w.applied, ∃ t, w.tasks[i]? = some t ∧ t.point ≠ .change
  changed : ∀ (i : Nat) (t : ConfigTask), w.tasks[i]? = some t → t.point.Changed = true →
    i ∈ w.applied
  memory : w.memory = replay memory w.changes

theorem applied_init (memory : ServerConfig) (file : List Char) :
    Applied memory (init memory file) := by
  refine ⟨?_, ?_, ?_, rfl⟩ <;> simp [init]

theorem change_set {point : ConfigPoint} (ht : w.tasks[i]? = some t) (j : Nat) :
    ((w.tasks.set i { t with point := point })[j]?).map ConfigTask.change
      = (w.tasks[j]?).map ConfigTask.change := by
  by_cases hij : i = j
  · subst hij
    rw [Tasks.get_set_self ht, ht]
    rfl
  · rw [List.getElem?_set_ne hij]

/-- A handler that moves on without changing the configuration. -/
theorem Applied.move {point : ConfigPoint} {file : List Char} (h : Applied memory w)
    (ht : w.tasks[i]? = some t) (hpoint : point ≠ .change)
    (hchanged : point.Changed = true → t.point.Changed = true) :
    Applied memory ({ w with file := file }.setTask i t point) := by
  refine ⟨h.nodup, fun j hj => ?_, fun j t' ht' hc => ?_, ?_⟩
  · obtain ⟨t', ht', hne⟩ := h.begun j hj
    by_cases hij : i = j
    · subst hij
      exact ⟨_, Tasks.get_set_self ht _, hpoint⟩
    · exact ⟨t', (List.getElem?_set_ne hij).trans ht', hne⟩
  · rcases Tasks.get_set ht ht' with ⟨rfl, rfl⟩ | ⟨-, ht'⟩
    · exact h.changed j t ht (hchanged hc)
    · exact h.changed j t' ht' hc
  · refine h.memory.trans (congrArg (replay memory) ?_)
    exact (List.filterMap_congr (fun j _ => change_set ht j)).symm

theorem Applied.change {cfg : ServerConfig} (h : Applied memory w) (ht : w.tasks[i]? = some t)
    (hpoint : t.point = .change) (happly : t.change.apply w.memory = .ok cfg) :
    Applied memory ({ w with memory := cfg, applied := w.applied ++ [i] }.setTask i t
      (afterChange cfg t.change)) := by
  have hafter : afterChange cfg t.change ≠ .change := by
    unfold afterChange
    split <;> simp
  have hnew : i ∉ w.applied := by
    intro hi
    obtain ⟨t', ht', hne⟩ := h.begun i hi
    rw [ht] at ht'
    cases ht'
    exact hne hpoint
  refine ⟨?_, fun j hj => ?_, fun j t' ht' hc => ?_, ?_⟩
  · exact List.Nodup.append h.nodup (List.nodup_singleton i) (by simpa using hnew)
  · by_cases hij : i = j
    · subst hij
      exact ⟨_, Tasks.get_set_self ht _, hafter⟩
    · rcases List.mem_append.mp hj with hj | hj
      · obtain ⟨t', ht', hne⟩ := h.begun j hj
        exact ⟨t', (List.getElem?_set_ne hij).trans ht', hne⟩
      · exact absurd (List.mem_singleton.mp hj).symm hij
  · rcases Tasks.get_set ht ht' with ⟨rfl, rfl⟩ | ⟨-, ht'⟩
    · exact List.mem_append_right _ (List.mem_singleton_self j)
    · exact List.mem_append_left _ (h.changed j t' ht' hc)
  · have hchanges : ({ w with memory := cfg, applied := w.applied ++ [i] }.setTask i t
        (afterChange cfg t.change)).changes = w.changes ++ [t.change] := by
      unfold changes setTask
      dsimp only
      rw [List.filterMap_append]
      congr 1
      · exact List.filterMap_congr (fun j _ => change_set ht j)
      · simp [Tasks.get_set_self ht]
    rw [hchanges, replay, List.foldl_append]
    show cfg = _
    have hmemory := h.memory
    unfold replay at hmemory
    rw [← hmemory, List.foldl_cons, List.foldl_nil, happly]

/-! ## The file -/

/-- Somebody has still to open the file. -/
def Owed (w : ConfigWorld) : Prop := ∃ t ∈ w.tasks, t.point.Owing = true

/-- Somebody besides this handler. -/
def OwedByOther (w : ConfigWorld) (i : Nat) : Bool :=
  (w.tasks.eraseIdx i).any (fun t => t.point.Owing)

/-- Who opens the file is alone with it, and writes what is in memory or leaves another to do so. -/
def MayOpen (w : ConfigWorld) (i : Nat) (t : ConfigTask) : Prop :=
  match t.point with
  | .write data => (∀ t' ∈ w.tasks, t'.point.Putting = false)
      ∧ (data = w.memory.toPrettyJson ∨ w.OwedByOther i = true)
  | _ => True

instance (w : ConfigWorld) (i : Nat) (t : ConfigTask) : Decidable (w.MayOpen i t) := by
  unfold MayOpen
  split <;> infer_instance

/-- A write that fails leaves another, too. -/
def InOrder (w : ConfigWorld) : ConfigLabel → Prop
  | .request _ => True
  | .run i => ∀ t ∈ w.tasks[i]?, w.MayOpen i t
  | .writeError i _ => w.OwedByOther i = true

instance (w : ConfigWorld) (l : ConfigLabel) : Decidable (w.InOrder l) := by
  unfold InOrder
  split <;> infer_instance

/-- The file has what is in memory, or nothing has happened. -/
def Saved (memory : ServerConfig) (file : List Char) (w : ConfigWorld) : Prop :=
  w.file = w.memory.toPrettyJson ∨ w.file = file ∧ w.memory = memory

structure Settling (memory : ServerConfig) (file : List Char) (w : ConfigWorld) : Prop where
  one : ∀ (i j : Nat) (t t' : ConfigTask), w.tasks[i]? = some t → w.tasks[j]? = some t' →
    t.point.Putting = true → t'.point.Putting = true → i = j
  emptied : ∀ t ∈ w.tasks, t.point.Putting = true → w.file = []
  putting : ∀ t ∈ w.tasks, ∀ data, t.point = .put data → data = w.memory.toPrettyJson ∨ w.Owed
  quiet : (∀ t ∈ w.tasks, t.point.Putting = false) → w.Owed ∨ Saved memory file w

theorem settling_init (memory : ServerConfig) (file : List Char) :
    Settling memory file (init memory file) where
  one := by simp [init]
  emptied := by simp [init]
  putting := by simp [init]
  quiet := fun _ => .inr (.inr ⟨rfl, rfl⟩)

theorem owed_of_other (t' : ConfigTask) (h : w.OwedByOther i = true) :
    ∃ t ∈ w.tasks.set i t', t.point.Owing = true := by
  obtain ⟨t, ht, howing⟩ := List.any_eq_true.mp h
  obtain ⟨j, hne, hj⟩ := List.mem_eraseIdx_iff_getElem?.mp ht
  exact ⟨t, List.mem_of_getElem? (i := j) (by rw [List.getElem?_set_ne (Ne.symm hne), hj]), howing⟩

/-- A handler that has nothing to write yet, or no more, moves on. -/
theorem owed_set {point : ConfigPoint} (ht : w.tasks[i]? = some t)
    (howing : t.point.Owing = true → point.Owing = true) (h : w.Owed) :
    ∃ t' ∈ w.tasks.set i { t with point := point }, t'.point.Owing = true := by
  obtain ⟨t', ht', howes⟩ := h
  rcases Tasks.eq_or_mem_set ht ht' with rfl | hmem
  · exact ⟨_, Tasks.mem_set_self ht _, howing howes⟩
  · exact ⟨t', hmem, howes⟩

/-- What a handler does that is not with the file: somebody owes as before, or owes now. -/
theorem Settling.aside {point : ConfigPoint} {cfg : ServerConfig} {applied : List Nat}
    (h : Settling memory file w) (ht : w.tasks[i]? = some t) (hbefore : t.point.Putting = false)
    (hpoint : point.Putting = false)
    (howes : point.Owing = true ∨ cfg = w.memory ∧ t.point.Owing = false) :
    Settling memory file
      ({ w with memory := cfg, applied := applied }.setTask i t point) := by
  have howed : w.Owed ∨ point.Owing = true →
      ({ w with memory := cfg, applied := applied }.setTask i t point).Owed := by
    rintro (hw | hnow)
    · rcases howes with hnow | ⟨-, hfree⟩
      · exact ⟨_, Tasks.mem_set_self ht _, hnow⟩
      · exact owed_set ht (fun hown => by rw [hfree] at hown; cases hown) hw
    · exact ⟨_, Tasks.mem_set_self ht _, hnow⟩
  refine ⟨fun j k t' t'' ht' ht'' hp' hp'' => ?_, fun t' ht' hp => ?_, fun t' ht' data hp => ?_,
    fun hquiet => ?_⟩
  · rcases Tasks.get_set ht ht' with ⟨-, rfl⟩ | ⟨-, ht'⟩
    · rw [hpoint] at hp'
      cases hp'
    · rcases Tasks.get_set ht ht'' with ⟨-, rfl⟩ | ⟨-, ht''⟩
      · rw [hpoint] at hp''
        cases hp''
      · exact h.one j k t' t'' ht' ht'' hp' hp''
  · rcases List.mem_or_eq_of_mem_set ht' with ht' | rfl
    · exact h.emptied t' ht' hp
    · rw [hpoint] at hp
      cases hp
  · rcases List.mem_or_eq_of_mem_set ht' with ht' | rfl
    · rcases howes with hnow | ⟨rfl, -⟩
      · exact .inr (howed (.inr hnow))
      · exact (h.putting t' ht' data hp).imp_right (fun hw => howed (.inl hw))
    · have hp : point = .put data := hp
      rw [hp] at hpoint
      cases hpoint
  · rcases howes with hnow | ⟨rfl, -⟩
    · exact .inl (howed (.inr hnow))
    · refine (h.quiet (fun t' ht' => ?_)).imp_left (fun hw => howed (.inl hw))
      rcases Tasks.eq_or_mem_set ht ht' with rfl | hmem
      · exact hbefore
      · exact hquiet t' hmem

/-- A handler is done with the file; the others have not opened it. -/
theorem Settling.leave {point : ConfigPoint} {file' : List Char} (h : Settling memory file w)
    (ht : w.tasks[i]? = some t) (hpoint : point.Putting = false)
    (hfile : t.point.Putting = true ∨ file' = w.file)
    (hend : ({ w with file := file' }.setTask i t point).Owed
      ∨ t.point.Putting = true ∧ Saved memory file { w with file := file' }) :
    Settling memory file ({ w with file := file' }.setTask i t point) := by
  have hothers : t.point.Putting = true → ∀ t' ∈ w.tasks.set i { t with point := point },
      t'.point.Putting = false := by
    intro hp t' ht'
    obtain ⟨j, hj⟩ := List.mem_iff_getElem?.mp ht'
    rcases Tasks.get_set ht hj with ⟨-, rfl⟩ | ⟨hne, hj⟩
    · exact hpoint
    · by_contra hp'
      exact hne (h.one j i t' t hj ht (Bool.not_eq_false _ ▸ hp') hp)
  refine ⟨fun j k t' t'' ht' ht'' hp' hp'' => ?_, fun t' ht' hp => ?_, fun t' ht' data hp => ?_,
    fun _ => ?_⟩
  · rcases Tasks.get_set ht ht' with ⟨-, rfl⟩ | ⟨-, ht'⟩
    · rw [hpoint] at hp'
      cases hp'
    · rcases Tasks.get_set ht ht'' with ⟨-, rfl⟩ | ⟨-, ht''⟩
      · rw [hpoint] at hp''
        cases hp''
      · exact h.one j k t' t'' ht' ht'' hp' hp''
  · rcases hfile with hown | rfl
    · rw [hothers hown t' ht'] at hp
      cases hp
    · rcases List.mem_or_eq_of_mem_set ht' with ht' | rfl
      · exact h.emptied t' ht' hp
      · rw [hpoint] at hp
        cases hp
  · rcases hend with howed | ⟨hown, -⟩
    · exact .inr howed
    · have := hothers hown t' ht'
      rw [hp] at this
      cases this
  · rcases hend with howed | ⟨-, hsaved⟩
    · exact .inl howed
    · exact .inr hsaved

theorem Settling.open {data : List Char} (h : w.MayOpen i t) (ht : w.tasks[i]? = some t)
    (hpoint : t.point = .write data) :
    Settling memory file ({ w with file := [] }.setTask i t (.put data)) := by
  unfold MayOpen at h
  rw [hpoint] at h
  obtain ⟨halone, hdata⟩ := h
  refine ⟨fun j k t' t'' ht' ht'' hp' hp'' => ?_, fun _ _ _ => rfl, fun t' ht' data' hp => ?_,
    fun hquiet => ?_⟩
  · rcases Tasks.get_set ht ht' with ⟨rfl, -⟩ | ⟨-, ht'⟩
    · rcases Tasks.get_set ht ht'' with ⟨rfl, -⟩ | ⟨-, ht''⟩
      · rfl
      · rw [halone t'' (List.mem_of_getElem? ht'')] at hp''
        cases hp''
    · rw [halone t' (List.mem_of_getElem? ht')] at hp'
      cases hp'
  · rcases List.mem_or_eq_of_mem_set ht' with ht' | rfl
    · have := halone t' ht'
      rw [hp] at this
      cases this
    · cases hp
      exact hdata.imp_right (owed_of_other _)
  · have := hquiet _ (Tasks.mem_set_self ht _)
    cases this

theorem overwrite_nil (data : List Char) : overwrite [] data = data := by
  unfold overwrite
  rw [List.drop_nil, List.append_nil]

theorem Settling.step (h : Settling memory file w) (hok : w.InOrder l) (hs : w.StepCase l w') :
    Settling memory file w' := by
  cases hs with
  | request =>
      refine ⟨fun j k t' t'' ht' ht'' hp' hp'' => ?_, fun t' ht' hp => ?_, fun t' ht' data hp => ?_,
        fun hquiet => ?_⟩
      · rcases Tasks.get_append ht' with ht' | ⟨-, rfl⟩
        · rcases Tasks.get_append ht'' with ht'' | ⟨-, rfl⟩
          · exact h.one j k t' t'' ht' ht'' hp' hp''
          · cases hp''
        · cases hp'
      · rcases List.mem_append.mp ht' with ht' | ht'
        · exact h.emptied t' ht' hp
        · cases List.mem_singleton.mp ht'
          cases hp
      · rcases List.mem_append.mp ht' with ht' | ht'
        · refine (h.putting t' ht' data hp).imp_right ?_
          rintro ⟨t, ht, howes⟩
          exact ⟨t, List.mem_append_left _ ht, howes⟩
        · cases List.mem_singleton.mp ht'
          cases hp
      · refine (h.quiet (fun t' ht' => hquiet t' (List.mem_append_left _ ht'))).imp_left ?_
        rintro ⟨t, ht, howes⟩
        exact ⟨t, List.mem_append_left _ ht, howes⟩
  | refused ht hpoint =>
      exact h.aside ht (by rw [hpoint]; rfl) rfl (.inr ⟨rfl, by rw [hpoint]; rfl⟩)
  | changed ht hpoint =>
      have hafter : ∀ cfg change, (afterChange cfg change).Putting = false
          ∧ (afterChange cfg change).Owing = true := by
        intro cfg change
        unfold afterChange
        split <;> exact ⟨rfl, rfl⟩
      exact h.aside ht (by rw [hpoint]; rfl) (hafter _ _).1 (.inl (hafter _ _).2)
  | serialized ht hpoint => exact h.aside ht (by rw [hpoint]; rfl) rfl (.inl rfl)
  | opened ht hpoint => exact .open (hok _ ht) ht hpoint
  | put ht hpoint =>
      have hputting : ∀ {p : ConfigPoint} {data : List Char}, p = .put data → p.Putting = true := by
        rintro _ _ rfl
        rfl
      refine h.leave ht rfl (.inl (hputting hpoint)) ?_
      rcases h.putting _ (List.mem_of_getElem? ht) _ hpoint with hdata | howed
      · refine .inr ⟨hputting hpoint, .inl ?_⟩
        rw [h.emptied _ (List.mem_of_getElem? ht) (hputting hpoint), overwrite_nil]
        exact hdata
      · exact .inl (owed_set ht (fun howes => by rw [hpoint] at howes; cases howes) howed)
  | failed ht _ hfile =>
      refine h.leave ht ?_ hfile (.inl (owed_of_other _ hok))
      unfold afterError
      split <;> rfl

theorem Applied.step (h : Applied memory w) (hs : w.StepCase l w') : Applied memory w' := by
  cases hs with
  | request =>
      refine ⟨h.nodup, fun j hj => ?_, fun j t' ht' hc => ?_, ?_⟩
      · obtain ⟨t', ht', hne⟩ := h.begun j hj
        exact ⟨t', Tasks.get_append_left ht' _, hne⟩
      · rcases Tasks.get_append ht' with ht' | ⟨-, rfl⟩
        · exact h.changed j t' ht' hc
        · cases hc
      · refine h.memory.trans (congrArg (replay memory) ?_)
        refine (List.filterMap_congr (fun j hj => ?_)).symm
        obtain ⟨t', ht', -⟩ := h.begun j hj
        rw [Tasks.get_append_left ht' _, ht']
  | refused ht hpoint => exact h.move ht (by simp) (fun hc => by cases hc)
  | changed ht hpoint happly => exact h.change ht hpoint happly
  | serialized ht hpoint => exact h.move ht (by simp) (fun _ => by rw [hpoint]; rfl)
  | opened ht hpoint => exact h.move ht (by simp) (fun _ => by rw [hpoint]; rfl)
  | put ht hpoint => exact h.move ht (by simp) (fun _ => by rw [hpoint]; rfl)
  | failed ht hpoint =>
      refine h.move ht ?_ (fun _ => hpoint)
      unfold afterError
      split <;> simp

theorem settling_reachable (hr : Lts.Reach step InOrder (init memory file) w) :
    Settling memory file w :=
  hr.invariant (settling_init memory file) (fun _ _ _ _ h hok hs => h.step hok (step_cases hs))

theorem applied_reachable {ok : ConfigWorld → ConfigLabel → Prop}
    (hr : Lts.Reach step ok (init memory file) w) : Applied memory w :=
  hr.invariant (applied_init memory file) (fun _ _ _ _ h _ hs => h.step (step_cases hs))

/-- **The configuration is kept**: when all handlers have finished, the file has what is in memory,
and that is the configuration there was with every change made in turn, those of all handlers that
were successful among them. -/
theorem config_kept (hr : Lts.Reach step InOrder (init memory file) w)
    (hover : ∀ t ∈ w.tasks, t.point.Over = true) :
    Saved memory file w ∧ w.memory = replay memory w.changes
      ∧ ∀ (i : Nat) (t : ConfigTask) (message : String), w.tasks[i]? = some t →
        t.point = .answered true message → i ∈ w.applied := by
  have hs := settling_reachable hr
  have ha := applied_reachable hr
  have hpast : ∀ {p : ConfigPoint}, p.Over = true → p.Putting = false ∧ p.Owing = false := by
    intro p hp
    cases p with
    | answered => exact ⟨rfl, rfl⟩
    | _ => cases hp
  refine ⟨?_, ha.memory, fun i t message ht hpoint => ha.changed i t ht (by rw [hpoint]; rfl)⟩
  refine (hs.quiet (fun t ht => (hpast (hover t ht)).1)).resolve_left ?_
  rintro ⟨t, ht, howes⟩
  rw [(hpast (hover t ht)).2] at howes
  cases howes

/-! ## A user who comes back -/

section Example

def bobOnly : ServerConfig := { ServerConfig.default with users := [("bob", "Ym9i")] }

/-- Alice is registered while Bob is deleted, and her text is written last. -/
def resurrecting : List ConfigLabel :=
  [.request (.reg "alice" "YWxpY2U="), .request (.delete "bob"), .run 0, .run 0,
    .run 1, .run 1, .run 1, .run 0, .run 0]

/-- The file cannot be written when Alice is registered. -/
def forgetting : List ConfigLabel :=
  [.request (.reg "alice" "YWxpY2U="), .run 0, .run 0, .writeError 0 0]

/-- The same two requests, one writing into the other. -/
def garbling : List ConfigLabel :=
  [.request (.delete "bob"), .request (.reg "alice" "YWxpY2U="), .run 1, .run 1, .run 0,
    .run 1, .run 0, .run 1, .run 0]

def finished (ls : List ConfigLabel) : ConfigWorld :=
  (Lts.exec step (init bobOnly bobOnly.toPrettyJson) ls).getD (init bobOnly bobOnly.toPrettyJson)

/-- Both have succeeded, and Bob is back after a restart; Alice has been registered, and is gone
after a restart; the file is no configuration any more. -/
theorem config_lost :
    (∀ ls ∈ [resurrecting, forgetting, garbling],
      (Lts.exec step (init bobOnly bobOnly.toPrettyJson) ls).isSome = true
      ∧ ∀ t ∈ (finished ls).tasks, t.point = .answered true "OK")
    ∧ ((finished resurrecting).memory.users = [("alice", "YWxpY2U=")]
      ∧ (finished resurrecting).file
        = { bobOnly with users := [("bob", "Ym9i"), ("alice", "YWxpY2U=")] }.toPrettyJson)
    ∧ ((finished forgetting).memory.users = [("bob", "Ym9i"), ("alice", "YWxpY2U=")]
      ∧ (finished forgetting).file = bobOnly.toPrettyJson)
    ∧ (finished garbling).file.length ≠ (finished garbling).memory.toPrettyJson.length :=
  ⟨by decide +kernel, ⟨by decide +kernel, overwrite_nil _⟩, ⟨by decide +kernel, rfl⟩,
    by decide +kernel⟩

/-- One after the other. -/
def orderlyRun : List ConfigLabel :=
  [.request (.reg "alice" "YWxpY2U="), .request (.delete "bob"), .run 0, .run 1, .run 1, .run 1,
    .run 0, .run 0, .run 0]

def orderlyWorld : ConfigWorld := finished orderlyRun

theorem config_kept_orderlyRun :
    orderlyWorld.memory.users = [("alice", "YWxpY2U=")]
      ∧ Saved bobOnly bobOnly.toPrettyJson orderlyWorld := by
  have h : (Lts.execWhile step InOrder (init bobOnly bobOnly.toPrettyJson) orderlyRun).isSome
      = true := by decide +kernel
  exact ⟨by decide +kernel, (config_kept (Lts.reach_exec h) (by decide +kernel)).1⟩

end Example

end ConfigWorld

end Paranoia
