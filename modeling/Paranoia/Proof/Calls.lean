import Paranoia.Proof.History

/-!
# What a step does to the calls

`job_step` is the counterpart of `receiving_step` for the part of a call outside of
`receive`: a call of the new world was there before, has just begun, or took one
of a few moves. Next to it stands what a step does to the journal of unfinished
transfers, and that call ids are never used again.
-/

namespace Paranoia

variable {κ π : Type} {n : Nat}

/-! ## The transfers a call works on -/

/-- The transfers a resume still has to look at. -/
def Mode.pending : Mode → List OutboundTransfer
  | .upload => []
  | .resume _ pending => pending

/-- The transfers a call works on or will take up. -/
def Outer.transfers : Outer π → List OutboundTransfer
  | .saveSending t => [t]
  | .journal t => [t]
  | .transfer mode t _ _ => t :: mode.pending
  | .transferring mode t _ _ _ => t :: mode.pending
  | .uploaded mode t => t :: mode.pending
  | .markSent mode t => t :: mode.pending
  | .giveUp pending t => t :: pending
  | .forget pending t => t :: pending
  | .pick pending => pending
  | .existing mode t _ _ => t :: mode.pending
  | _ => []

/-- The message a call sends, if it does. -/
def Outer.send? : Outer π → Option SendCall
  | .notify call => some call
  | .compose call _ => some call
  | .sending call _ _ _ => some call
  | .save call _ _ => some call
  | _ => none

section Moves

variable {mode : Mode} {t u : OutboundTransfer} {task : Task π}

theorem transferError_transfers (h : Task.transferError mode t = some task)
    (hu : u ∈ task.outer.transfers) : u ∈ t :: mode.pending := by
  cases mode with
  | upload => cases h
  | resume attempts pending =>
      simp only [Task.transferError] at h
      split at h <;> cases h
      · exact hu
      · exact List.mem_cons_of_mem _ hu

theorem transferOver_transfers (h : Task.transferOver mode = some task)
    (hu : u ∈ task.outer.transfers) : u ∈ mode.pending := by
  cases mode with
  | upload => cases h
  | resume attempts pending =>
      cases h
      exact hu

theorem onPushResult_transfers {since : Nat} {outer : Outer π} {result : PushResult}
    (h : Task.onPushResult since outer result = some (some task))
    (hu : u ∈ task.outer.transfers) : u ∈ outer.transfers := by
  cases outer with
  | sending call tries id p =>
      cases result <;> cases h <;> cases hu
  | transferring mode t present i p =>
      cases result with
      | ok =>
          cases h
          exact hu
      | conflict => exact transferError_transfers (Option.some.inj h) hu
      | failed => exact transferError_transfers (Option.some.inj h) hu
  | _ => cases h

theorem onTimeout_transfers {outer : Outer π} {retry : Bool}
    (h : Task.onTimeout retry outer = some (some task)) (hu : u ∈ task.outer.transfers) :
    u ∈ outer.transfers := by
  unfold Task.onTimeout at h
  split at h
  · split at h
    · cases h
      cases hu
    · cases h
  · split at h
    · cases h
      exact hu
    · exact transferError_transfers (Option.some.inj h) hu
  · cases h

theorem onExisting_transfers {outer : Outer π} {answer : Option MapResult}
    (h : Task.onExisting outer answer = some (some task)) (hu : u ∈ task.outer.transfers) :
    u ∈ outer.transfers := by
  unfold Task.onExisting at h
  split at h
  · exact List.mem_cons_of_mem _ (transferOver_transfers (Option.some.inj h) hu)
  · dsimp only at h
    split at h
    · split at h <;> (cases h; exact hu)
    · cases h
      exact hu
  · cases h

end Moves

namespace World

/-- What becomes of the part of a call outside of `receive`. -/
inductive OuterMove [Aead κ π] (cfg : Setup κ n) (w : World π n) (l : Label π n) (w' : World π n)
    (job : Job π n) : Outer π → Prop where
  | stay : OuterMove cfg w l w' job job.task.outer
  | step {env : Env} {out : Local π} {task : Task π} (hrx : job.task.rx = none)
      (label : l = .localStep job.id env)
      (hstep : OuterStep (cfg.device job.dev) env (w.store job.dev) job.task.outer out)
      (hfresh : ∀ i ∈ out.issued, w.isFresh i.1 = true) (htask : out.task = some task)
      (effect : w' = (w.moved job out.store out.task out.notices).issue job.dev out.issued) :
      OuterMove cfg w l w' job task.outer
  | notified {call : SendCall} (hp : job.task.outer = .notify call) :
      OuterMove cfg w l w' job (.compose call 3)
  | pushed {req : PushRequest π} {task : Task π} (hrx : job.task.rx = none)
      (label : l = .push job.id) (hreq : Task.request job.task.outer = some req)
      (htask : Task.onPushResult (w.serve (some job.id) req).1.log.length job.task.outer
        (pushResult (w.serve (some job.id) req).2) = some (some task))
      (effect : w' = (w.serve (some job.id) req).1.setTask job (some task)) :
      OuterMove cfg w l w' job task.outer
  | timeout {req : PushRequest π} {retry : Bool} {task : Task π}
      (hreq : Task.request job.task.outer = some req)
      (htask : Task.onTimeout retry job.task.outer = some (some task)) :
      OuterMove cfg w l w' job task.outer
  | existing {mode : Mode} {t : OutboundTransfer} {after : Nat} {present : List (Nat × Nat)}
      {task : Task π} (answer : Option MapResult)
      (hp : job.task.outer = .existing mode t after present)
      (hmap : l.isRelay = false → ∀ m, answer = some m → w.server.store.map cfg.key after
        (t.headerSeq + t.chunkCount) mapMaxRuns = .ok m)
      (htask : Task.onExisting job.task.outer answer = some (some task)) :
      OuterMove cfg w l w' job task.outer

variable [Aead κ π] {cfg : Setup κ n} {w w' : World π n} {l : Label π n}

/-- A call of the world after `setTask` is another one, or the one set. -/
theorem job_setTask (w₁ : World π n) {job job' : Job π n} {task : Option (Task π)}
    (hjobs : w₁.jobs = w.jobs) (hjob : job ∈ w.jobs) (hj : job' ∈ (w₁.setTask job task).jobs)
    (hmove : ∀ t, task = some t → OuterMove cfg w l w' job t.outer) :
    job' ∈ w.jobs ∨ ∃ job ∈ w.jobs, job'.id = job.id ∧ job'.dev = job.dev
      ∧ OuterMove cfg w l w' job job'.task.outer := by
  rcases mem_setTask hj with ⟨hj', _⟩ | ⟨t, ht, rfl⟩
  · exact Or.inl (hjobs ▸ hj')
  · exact Or.inr ⟨job, hjob, rfl, rfl, hmove t ht⟩

/-- **What one step does to the calls.** -/
theorem job_step (h : StepCase cfg w l w') {job' : Job π n} (hj : job' ∈ w'.jobs) :
    job' ∈ w.jobs
      ∨ (∃ call, call.allowed = true ∧ job'.id = w.nextJob
          ∧ job'.task = firstTask w.log.length call)
      ∨ ∃ job ∈ w.jobs, job'.id = job.id ∧ job'.dev = job.dev
          ∧ OuterMove cfg w l w' job job'.task.outer := by
  cases h with
  | @start dev call hcall =>
      rcases Table.mem_insertOrReplace.mp hj with ⟨hj, _⟩ | rfl
      · exact Or.inl hj
      · exact Or.inr (Or.inl ⟨call, hcall, rfl, rfl⟩)
  | @outer job env out hjob hrx hstep hfresh =>
      refine (job_setTask (w := w) (w.setStore job.dev out.store) rfl hjob hj
        (fun t ht => ?_)).imp_right Or.inr
      exact .step hrx rfl hstep hfresh ht rfl
  | run env hjob _ _ =>
      refine (job_setTask (w := w) (w.setStore _ _) rfl hjob hj (fun t ht => ?_)).imp_right Or.inr
      cases ht
      exact .stay
  | finish hjob _ _ htask =>
      refine (job_setTask (w := w) (w.setStore _ _) rfl hjob hj (fun t ht => ?_)).imp_right Or.inr
      rw [(htask t ht).1]
      exact .stay
  | fails hjob =>
      refine (job_setTask (w := w) (w.setStore _ _) rfl hjob hj (fun t ht => ?_)).imp_right Or.inr
      cases ht
  | relayMap hjob =>
      refine (job_setTask (w := w) (w.setStore _ _) rfl hjob hj (fun t ht => ?_)).imp_right Or.inr
      cases ht
      exact .stay
  | relayPull hjob =>
      refine (job_setTask (w := w) (w.setStore _ _) rfl hjob hj (fun t ht => ?_)).imp_right Or.inr
      cases ht
      exact .stay
  | notified hjob _ hp =>
      refine (job_setTask (w := w) w rfl hjob hj (fun t ht => ?_)).imp_right Or.inr
      cases ht
      exact .notified hp
  | existing answer hjob _ hp hmap htask =>
      refine (job_setTask (w := w) w rfl hjob hj (fun t ht => ?_)).imp_right Or.inr
      subst ht
      refine .existing answer hp ?_ htask
      rwa [cfg.shared] at hmap
  | push hjob hrx hreq htask =>
      refine (job_setTask (w := w) ((w.serve _ _).1) rfl hjob hj (fun t ht => ?_)).imp_right Or.inr
      subst ht
      exact .pushed hrx rfl hreq htask rfl
  | timeout hjob _ hreq htask =>
      refine (job_setTask (w := w) (w.delay _ _) rfl hjob hj (fun t ht => ?_)).imp_right Or.inr
      subst ht
      exact .timeout hreq htask
  | @timeoutExisting job _ mode t after present hjob hrx hp =>
      refine (job_setTask (w := w) w rfl hjob hj (fun t ht => ?_)).imp_right Or.inr
      refine .existing none hp (fun _ m hm => by cases hm) ?_
      rw [hp, ← ht]
      rfl
  | arrive => exact Or.inl hj
  | raw => exact Or.inl hj
  | kill hjob =>
      refine (job_setTask (w := w) w rfl hjob hj (fun t ht => ?_)).imp_right Or.inr
      cases ht
  | remove => exact Or.inl hj

end World

end Paranoia
