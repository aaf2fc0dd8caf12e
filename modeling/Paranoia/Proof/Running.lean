import Paranoia.Proof.Cursor
import Paranoia.Proof.Steps

/-!
# The receives that are running

How one step of a dialogue changes the set of running `receive`s and the cursors:
`receiving_step`, `store_step` and `cursor_step`. On them rests `Tracks`, the world-level form
of `Receive.Follows`, and `tracks_step`, which says once what every argument about
cursors needs: if the step is no relay's, numbers that begin to matter are settled
or ahead of every cursor and every running call, and a packet that is processed
becomes settled together with the body it announces, then the step passes over
nothing.
-/

namespace Paranoia

variable {κ π : Type} {n : Nat}

/-! ## The packets a running `receive` holds -/

namespace Receive

/-- The packets that are pulled and not yet processed. -/
def queue (r : Receive π) : List (RawPacket π) :=
  match r.point with
  | .packet pkt queue _ _ _ => pkt :: queue
  | .advance _ _ queue _ _ _ => queue
  | _ => []

variable {r : Receive π}

@[simp] theorem queue_nextRun (todo : List (Nat × Nat)) : (r.nextRun todo).queue = [] := by
  induction todo with
  | nil => rfl
  | cons run todo ih =>
      rw [nextRun]
      split
      · exact ih
      · split
        · rfl
        · exact ih

@[simp] theorem queue_nextBatch (seq stop : Nat) (todo : List (Nat × Nat)) :
    (r.nextBatch seq stop todo).queue = [] := by
  unfold nextBatch
  split
  · rfl
  · exact queue_nextRun todo

@[simp] theorem queue_nextPacket (queue : List (RawPacket π)) (batchEnd stop : Nat)
    (todo : List (Nat × Nat)) : (r.nextPacket queue batchEnd stop todo).queue = queue := by
  cases queue with
  | nil => exact queue_nextBatch _ _ _
  | cons pkt queue => rfl

@[simp] theorem queue_onMap (m : MapResult) : (r.onMap m).queue = [] := by
  unfold onMap
  dsimp only
  cases Runs.lastEnd? m.runs with
  | none => rfl
  | some e => cases ht : m.truncated <;> rfl

theorem mem_queue_onPull {packets : List (RawPacket π)} {seq stop : Nat}
    {todo : List (Nat × Nat)} {pkt : RawPacket π} :
    pkt ∈ (r.onPull packets seq stop todo).queue ↔ pkt ∈ packets := by
  have hm : pkt ∈ packets.insertionSort (fun a b => a.seq ≤ b.seq) ↔ pkt ∈ packets :=
    List.mem_insertionSort _
  unfold onPull
  cases h : packets.insertionSort (fun a b => a.seq ≤ b.seq) with
  | nil =>
      rw [h] at hm
      exact hm
  | cons p q =>
      rw [h] at hm
      exact hm

end Receive

/-- The packets a move leaves to be processed were there before, or were pulled from the
server. -/
theorem RxMove.mem_queue [Aead κ π] {c : Client κ} {env : Env} {ps : PacketStore π}
    {st st' : LocalStore} {r r' : Receive π} {notices : List (Notice π)}
    (h : RxMove c env ps st r st' r' notices) {pkt : RawPacket π} (hq : pkt ∈ r'.queue) :
    pkt ∈ r.queue ∨ ∃ seq stop todo packets, r.point = .pull seq stop todo
      ∧ ps.pull c.key (seq - 1) (Receive.batchEnd seq stop) = .ok packets
      ∧ pkt ∈ packets ∧ notices = [.pulled packets] := by
  cases h with
  | pull hp hpull =>
      exact Or.inr ⟨_, _, _, _, hp, hpull, Receive.mem_queue_onPull.mp hq, rfl⟩
  | packet hp _ =>
      left
      have hq' := (Receive.dropSkipped_sublist _ _).subset hq
      simp only [Receive.queue, hp]
      exact List.mem_cons_of_mem _ hq'
  | advance hp =>
      left
      simp only [Receive.queue_nextPacket] at hq
      simpa only [Receive.queue, hp] using hq
  | lastSeq => simp at hq
  | load => simp at hq
  | skip => simp at hq
  | scan | bump | stay | sweep | tombstones | delete => simp [Receive.queue] at hq

/-! ## Cursors -/

theorem bufferChunk_dialogueState (c : Client κ) (st : LocalStore) (seq : Nat) (row : ChunkRow) :
    (c.bufferChunk st seq row).1.dialogueState = st.dialogueState := by
  rcases c.bufferChunk_cases st seq row with ⟨_, h⟩ | ⟨_, file, _, h⟩ <;> rw [h] <;> simp

/-- Processing a packet moves no cursor. -/
theorem processIncoming_dialogueState (c : Client κ) (now : Int) (st : LocalStore)
    (inner : PacketInner) (seq : Nat) :
    (c.processIncoming now st inner seq).1.dialogueState = st.dialogueState := by
  unfold Client.processIncoming
  split
  · rfl
  · split
    · rfl
    · rfl
    · split <;> rfl
    · split
      · rfl
      · exact bufferChunk_dialogueState _ _ _ _
    · rfl

theorem PacketStep.dialogueState [Aead κ π] {c : Client κ} {now : Int} {st st' : LocalStore}
    {pkt : RawPacket π} {target : Nat} {own : Option MessageId} {skipUntil : Option Nat}
    {counted : List Nat} (h : PacketStep c now st pkt st' target own skipUntil counted) :
    st'.dialogueState = st.dialogueState := by
  cases h with
  | undecryptable => rfl
  | own => rfl
  | processed _ _ hp =>
      rw [← processIncoming_dialogueState c now st _ pkt.seq, hp]

theorem bufferChunk_outboundTransfers (c : Client κ) (st : LocalStore) (seq : Nat)
    (row : ChunkRow) :
    (c.bufferChunk st seq row).1.outboundTransfers = st.outboundTransfers := by
  rcases c.bufferChunk_cases st seq row with ⟨_, h⟩ | ⟨_, file, _, h⟩ <;> rw [h] <;> simp

/-- Nor does it touch the journal. -/
theorem processIncoming_outboundTransfers (c : Client κ) (now : Int) (st : LocalStore)
    (inner : PacketInner) (seq : Nat) :
    (c.processIncoming now st inner seq).1.outboundTransfers = st.outboundTransfers := by
  unfold Client.processIncoming
  split
  · rfl
  · split
    · rfl
    · rfl
    · split <;> rfl
    · split
      · rfl
      · exact bufferChunk_outboundTransfers _ _ _ _
    · rfl

/-- No move of a running `receive` touches the journal. -/
theorem RxMove.outboundTransfers [Aead κ π] {c : Client κ} {env : Env} {ps : PacketStore π}
    {st st' : LocalStore} {r r' : Receive π} {notices : List (Notice π)}
    (h : RxMove c env ps st r st' r' notices) : st'.outboundTransfers = st.outboundTransfers := by
  cases h with
  | packet _ hstep =>
      cases hstep with
      | undecryptable => rfl
      | own => rfl
      | @processed inner _ _ _ _ _ _ hp =>
          rw [← processIncoming_outboundTransfers c env.now st inner, hp]
  | _ => rfl

namespace World

variable [Aead κ π] {cfg : Setup κ n} {w w' : World π n} {l : Label π n} {d : Fin n}

/-- The world after a running `receive` moved. -/
structure Moves (cfg : Setup κ n) (w : World π n) (l : Label π n) (d : Fin n) (rx rx' : Rx π)
    (w' : World π n) : Prop where
  running : rx' ∈ w'.receiving d
  since : rx'.since = rx.since
  server : w'.server = w.server
  move : ∃ (env : Env) (notices : List (Notice π)) (job : Nat),
    RxMove (cfg.device d) env w.server.store (w.store d) rx.run (w'.store d) rx'.run notices
      ∧ w'.log = w.log ++ notices.map (.notice d job)
  label : rx.run.waits = true ∨ ∃ job ∈ w.jobs, job.dev = d ∧ job.task.rx = some rx
    ∧ ∃ env, l = .localStep job.id env

theorem moved_server {job : Job π n} {st : LocalStore} {task : Option (Task π)}
    {notices : List (Notice π)} : (w.moved job st task notices).server = w.server := by
  simp [moved, note, setStore]

theorem moved_log {job : Job π n} {st : LocalStore} {task : Option (Task π)}
    {notices : List (Notice π)} :
    (w.moved job st task notices).log = w.log ++ notices.map (.notice job.dev job.id) := by
  simp [moved, note, setStore]

theorem moved_store_self {job : Job π n} {st : LocalStore} {task : Option (Task π)}
    {notices : List (Notice π)} : (w.moved job st task notices).store job.dev = st := by
  simp [moved, note]

theorem moved_store_of_ne {job : Job π n} {st : LocalStore} {task : Option (Task π)}
    {notices : List (Notice π)} (h : d ≠ job.dev) :
    (w.moved job st task notices).store d = w.store d := by
  simp [moved, note, setStore_store_of_ne h]

theorem mem_moved_jobs {job job' : Job π n} {st : LocalStore} {task : Option (Task π)}
    (h : job' ∈ ((w.setStore job.dev st).setTask job task).jobs) :
    (job' ∈ w.jobs ∧ job'.id ≠ job.id) ∨ ∃ t, task = some t ∧ job' = { job with task := t } :=
  mem_setTask (w := w.setStore job.dev st) h

theorem mem_receiving_moved {job : Job π n} {st : LocalStore} {rx : Rx π} {outer : Outer π}
    {notices : List (Notice π)} :
    rx ∈ (w.moved job st (some ⟨some rx, outer⟩) notices).receiving job.dev :=
  mem_receiving.mpr ⟨{ job with task := ⟨some rx, outer⟩ },
    Table.mem_insertOrReplace.mpr (Or.inr rfl), rfl, rfl⟩

/-- Tasks that run no `receive`, or one that begins now. -/
def Idle (since : Nat) (task : Option (Task π)) : Prop :=
  ∀ t, task = some t → t.rx = none ∨ t.rx = some ⟨since, Receive.start⟩

theorem idle_transferError {since : Nat} {mode : Mode} {t : OutboundTransfer} :
    Idle since (Task.transferError (π := π) mode t) := by
  intro task h
  cases mode with
  | upload => cases h
  | resume attempts pending =>
      simp only [Task.transferError] at h
      split at h <;> (cases h; exact Or.inl rfl)

theorem idle_transferOver {since : Nat} {mode : Mode} :
    Idle since (Task.transferOver (π := π) mode) := by
  intro task h
  cases mode with
  | upload => cases h
  | resume attempts pending =>
      cases h
      exact Or.inl rfl

theorem idle_onPushResult {since : Nat} {outer : Outer π} {result : PushResult}
    {task : Option (Task π)} (h : Task.onPushResult since outer result = some task) :
    Idle since task := by
  cases outer with
  | sending call tries id p =>
      cases result <;> (cases h; intro t ht; cases ht)
      · exact Or.inl rfl
      · exact Or.inr rfl
  | transferring mode t present i p =>
      cases result with
      | ok =>
          cases h
          intro t ht
          cases ht
          exact Or.inl rfl
      | conflict =>
          cases h
          exact idle_transferError
      | failed =>
          cases h
          exact idle_transferError
  | _ => cases h

theorem idle_onTimeout {since : Nat} {outer : Outer π} {retry : Bool} {task : Option (Task π)}
    (h : Task.onTimeout retry outer = some task) : Idle since task := by
  unfold Task.onTimeout at h
  split at h
  · split at h
    · cases h
      intro t ht
      cases ht
      exact Or.inl rfl
    · cases h
      intro t ht
      cases ht
  · split at h
    · cases h
      intro t ht
      cases ht
      exact Or.inl rfl
    · cases h
      exact idle_transferError
  · cases h

theorem idle_onExisting {since : Nat} {outer : Outer π} {answer : Option MapResult}
    {task : Option (Task π)} (h : Task.onExisting outer answer = some task) :
    Idle since task := by
  unfold Task.onExisting at h
  split at h
  · cases h
    exact idle_transferOver
  · dsimp only at h
    split at h
    · split at h <;> (cases h; intro t ht; cases ht; exact Or.inl rfl)
    · cases h
      intro t ht
      cases ht
      exact Or.inl rfl
  · cases h

/-- What the `receive` of a call was before the call's task was set. -/
theorem running_setTask {w₁ : World π n} {job job' : Job π n} {task : Option (Task π)}
    (since : Nat) (hjobs : w₁.jobs = w.jobs) (ht : Idle since task)
    {rx : Rx π} (hj : job' ∈ (w₁.setTask job task).jobs) (hrx : job'.task.rx = some rx) :
    (∃ job ∈ w.jobs, job.id = job'.id ∧ job.dev = job'.dev ∧ job.task.rx = some rx) ∨
      rx = ⟨since, Receive.start⟩ := by
  rcases mem_setTask hj with ⟨hj', _⟩ | ⟨t, htask, rfl⟩
  · exact Or.inl ⟨job', hjobs ▸ hj', rfl, rfl, hrx⟩
  · rcases ht t htask with h' | h'
    · rw [h'] at hrx
      cases hrx
    · rw [h'] at hrx
      cases hrx
      exact Or.inr rfl

/-- **What one step does to the `receive` of a call**: it was there before, begins, or moves. -/
theorem running_step (h : StepCase cfg w l w') (hrelay : l.isRelay = false) {job' : Job π n}
    (hj : job' ∈ w'.jobs) {rx' : Rx π} (hrx' : job'.task.rx = some rx') :
    (∃ job ∈ w.jobs, job.id = job'.id ∧ job.dev = job'.dev ∧ job.task.rx = some rx')
      ∨ rx' = ⟨w'.log.length, Receive.start⟩
      ∨ ∃ job ∈ w.jobs, job.id = job'.id ∧ job.dev = job'.dev ∧ ∃ rx, job.task.rx = some rx ∧
          Moves cfg w l job'.dev rx rx' w' := by
  cases h with
  | @start dev call _ =>
      rcases Table.mem_insertOrReplace.mp hj with ⟨hj, _⟩ | rfl
      · exact Or.inl ⟨job', hj, rfl, rfl, hrx'⟩
      · cases call with
        | receive | upload =>
            cases hrx'
            exact Or.inr (Or.inl rfl)
        | send | resume => cases hrx'
  | outer _ _ hstep _ =>
      rcases mem_moved_jobs hj with ⟨hj, _⟩ | ⟨t, ht, rfl⟩
      · exact Or.inl ⟨job', hj, rfl, rfl, hrx'⟩
      · rw [hstep.rx ht] at hrx'
        cases hrx'
  | @run job rx _ st run notices env hjob hrx hmove hlabel =>
      rcases mem_moved_jobs hj with ⟨hj, _⟩ | ⟨t, ht, rfl⟩
      · exact Or.inl ⟨job', hj, rfl, rfl, hrx'⟩
      · cases ht
        cases hrx'
        refine Or.inr (Or.inr ⟨job, hjob, rfl, rfl, rx, hrx, mem_receiving_moved, rfl,
          moved_server, ⟨env, notices, job.id, ?_, moved_log⟩,
          hlabel.imp_right (fun h => ⟨job, hjob, rfl, hrx, h⟩)⟩)
        rw [moved_store_self]
        exact hmove
  | finish hjob hrx hdone htask =>
      rcases mem_moved_jobs hj with ⟨hj, _⟩ | ⟨t, ht, rfl⟩
      · exact Or.inl ⟨job', hj, rfl, rfl, hrx'⟩
      · rw [(htask t ht).1] at hrx'
        cases hrx'
  | fails hjob hrx hp hdec hst =>
      rcases mem_moved_jobs hj with ⟨hj, _⟩ | ⟨t, ht, rfl⟩
      · exact Or.inl ⟨job', hj, rfl, rfl, hrx'⟩
      · cases ht
  | relayMap => cases hrelay
  | relayPull => cases hrelay
  | notified _ _ _ =>
      refine (running_setTask w.log.length rfl ?_ hj hrx').imp_right (fun h => Or.inl ?_)
      · intro t ht
        cases ht
        dsimp only
        split
        · exact Or.inr rfl
        · exact Or.inl rfl
      · rw [h, setTask_log]
  | existing _ _ _ _ _ htask =>
      exact (running_setTask _ rfl (idle_onExisting htask) hj hrx').imp_right Or.inl
  | @push job req _ _ _ _ htask =>
      have hjobs : (w.serve (some job.id) req).1.jobs = w.jobs := rfl
      refine (running_setTask _ hjobs (idle_onPushResult htask) hj hrx').imp_right
        (fun h => Or.inl ?_)
      rw [h, setTask_log]
  | @timeout job _ req _ _ _ _ htask =>
      have hjobs : (w.delay job.id req).jobs = w.jobs := rfl
      exact (running_setTask _ hjobs (idle_onTimeout htask) hj hrx').imp_right Or.inl
  | timeoutExisting =>
      exact (running_setTask _ rfl idle_transferOver hj hrx').imp_right Or.inl
  | arrive => exact Or.inl ⟨job', hj, rfl, rfl, hrx'⟩
  | raw => exact Or.inl ⟨job', hj, rfl, rfl, hrx'⟩
  | kill _ =>
      refine (running_setTask _ rfl ?_ hj hrx').imp_right Or.inl
      intro t ht
      cases ht
  | remove => exact Or.inl ⟨job', hj, rfl, rfl, hrx'⟩

/-- **What one step does to the running `receive`s** of a device. -/
theorem receiving_step (h : StepCase cfg w l w') (hrelay : l.isRelay = false) {rx' : Rx π}
    (hrx' : rx' ∈ w'.receiving d) :
    rx' ∈ w.receiving d ∨ rx' = ⟨w'.log.length, Receive.start⟩
      ∨ ∃ rx ∈ w.receiving d, Moves cfg w l d rx rx' w' := by
  obtain ⟨job', hj, rfl, hrx⟩ := mem_receiving.mp hrx'
  rcases running_step h hrelay hj hrx with ⟨job, hjob, _, hdev, hold⟩ | hstart |
    ⟨job, hjob, _, hdev, rx, hold, hm⟩
  · exact Or.inl (mem_receiving.mpr ⟨job, hjob, hdev, hold⟩)
  · exact Or.inr (Or.inl hstart)
  · exact Or.inr (Or.inr ⟨rx, mem_receiving.mpr ⟨job, hjob, hdev, hold⟩, hm⟩)

/-! ## What a step does to the databases -/

/-- The ways a step can change the database of a device. -/
inductive StoreCase (cfg : Setup κ n) (w : World π n) (l : Label π n) (w' : World π n)
    (d : Fin n) : Prop where
  | same (store : w'.store d = w.store d)
  | outer {job : Job π n} {env : Env} {out : Local π} (hjob : job ∈ w.jobs) (hdev : job.dev = d)
      (hrx : job.task.rx = none) (label : l = .localStep job.id env)
      (hstep : OuterStep (cfg.device d) env (w.store d) job.task.outer out)
      (hfresh : ∀ i ∈ out.issued, w.isFresh i.1 = true) (store : w'.store d = out.store)
      (effect : w' = (w.moved job out.store out.task out.notices).issue job.dev out.issued)
  | move {rx rx' : Rx π} (hrx : rx ∈ w.receiving d) (hmove : Moves cfg w l d rx rx' w')
  | fails {rx : Rx π} {pkt : RawPacket π} {env : Env} {inner : PacketInner} {e : Fault}
      (hrx : rx ∈ w.receiving d) (hpkt : pkt ∈ rx.run.queue)
      (hdec : (cfg.device d).decryptPacket pkt.seq pkt.payload = some inner)
      (hproc : (cfg.device d).processIncoming env.now (w.store d) inner pkt.seq
        = (w'.store d, .error e))

/-- **What one step does to a database.** -/
theorem store_step (h : StepCase cfg w l w') (d : Fin n) : StoreCase cfg w l w' d := by
  cases h with
  | @outer job env out hjob hrx hstep hfresh =>
      by_cases hd : d = job.dev
      · subst hd
        have hst : (w.moved job out.store out.task out.notices).store job.dev = out.store :=
          moved_store_self
        exact .outer hjob rfl hrx rfl hstep hfresh hst rfl
      · have hst : (w.moved job out.store out.task out.notices).store d = w.store d :=
          moved_store_of_ne hd
        exact .same hst
  | @run job rx _ st run notices env hjob hrx hmove hlabel =>
      by_cases hd : d = job.dev
      · subst hd
        refine .move (mem_receiving.mpr ⟨job, hjob, rfl, hrx⟩)
          (⟨mem_receiving_moved, rfl, moved_server, ⟨env, notices, job.id, ?_, moved_log⟩,
            hlabel.imp_right (fun h => ⟨job, hjob, rfl, hrx, h⟩)⟩ :
            Moves cfg w l job.dev rx { rx with run := run } _)
        rw [moved_store_self]
        exact hmove
      · exact .same (moved_store_of_ne hd)
  | @finish job =>
      by_cases hd : d = job.dev
      · subst hd
        exact .same moved_store_self
      · exact .same (moved_store_of_ne hd)
  | @fails job env rx pkt queue batchEnd stop todo inner st e hjob hrx hp hdec hst =>
      by_cases hd : d = job.dev
      · subst hd
        rcases hst with rfl | hst
        · exact .same moved_store_self
        · have hq : pkt ∈ rx.run.queue := by simp [Receive.queue, hp]
          have hproc : (cfg.device job.dev).processIncoming env.now (w.store job.dev) inner pkt.seq
              = ((w.moved job st none []).store job.dev, .error e) := by
            rw [moved_store_self]
            exact hst
          exact .fails (mem_receiving.mpr ⟨job, hjob, rfl, hrx⟩) hq hdec hproc
      · exact .same (moved_store_of_ne hd)
  | @relayMap job =>
      by_cases hd : d = job.dev
      · subst hd
        exact .same moved_store_self
      · exact .same (moved_store_of_ne hd)
  | @relayPull job =>
      by_cases hd : d = job.dev
      · subst hd
        exact .same moved_store_self
      · exact .same (moved_store_of_ne hd)
  | push => exact .same (by simp [serve])
  | timeout => exact .same (by simp [delay])
  | notified | existing | timeoutExisting | kill => exact .same (by simp)
  | start | arrive | raw | remove => exact .same rfl

/-- Only a move of a `receive` running on the device moves its cursor. -/
theorem cursor_step (h : StepCase cfg w l w') (d : Fin n) :
    cursor cfg w' d = cursor cfg w d
      ∨ ∃ rx ∈ w.receiving d, ∃ rx', Moves cfg w l d rx rx' w' := by
  have hkey := cfg.shared d
  unfold cursor
  cases store_step h d with
  | same hst => exact Or.inl (by rw [hst])
  | outer _ _ _ _ hstep _ hst =>
      have hc := hstep.cursor
      rw [hkey] at hc
      exact Or.inl (by rw [hst, hc])
  | move hrx hmove => exact Or.inr ⟨_, hrx, _, hmove⟩
  | @fails _ pkt env inner _ _ _ _ hproc =>
      left
      refine LocalStore.getLastPulledSeq_congr (congrFun ?_ cfg.key)
      rw [← processIncoming_dialogueState (cfg.device d) env.now (w.store d) inner pkt.seq, hproc]

/-! ## Passing over nothing -/

end World

section Follows

variable [Aead κ π] {c : Client κ} {env : Env} {ps : PacketStore π} {st st' : LocalStore}
  {r r' : Receive π} {notices : List (Notice π)} {E S S' N : Nat → Prop}

/-- A move passes over nothing that matters, if the packet it may process is settled by it. -/
theorem RxMove.follows (h : RxMove c env ps st r st' r' notices) (hf : r.Follows E S N)
    (hc : Settled E S (st.getLastPulledSeq c.key))
    (hlive : ∀ s, E s → 0 < s ∧ s < u64Size ∧ s ∈ ps.live c.key)
    (hS : ∀ s, E s → S s → S' s)
    (hpacket : ∀ pkt queue batchEnd stop todo, r.point = .packet pkt queue batchEnd stop todo →
      ∀ target own skipUntil counted, PacketStep c env.now st pkt st' target own skipUntil counted →
      r'.decryptErrors = r.decryptErrors ++ counted →
      (E pkt.seq → S' pkt.seq) ∧ ∀ s, pkt.seq < s → s ≤ target → E s → S' s) :
    r'.Follows E S' N ∧ Settled E S' (st'.getLastPulledSeq c.key) := by
  have hc' : Settled E S' (st.getLastPulledSeq c.key) := fun s hs hle => hS s hs (hc s hs hle)
  have hf' : r.Follows E S' N := hf.mono hS (fun _ h => h) (fun _ h => Or.inl h)
  have hEpos : ∀ s, E s → 0 < s := fun s hs => (hlive s hs).1
  cases h with
  | @scan after hp =>
      refine ⟨?_, hc'⟩
      by_cases hafter : after + 1 < u64Size
      · refine Receive.follows_scan hp hf'
          (PacketStore.mapRuns_spec ps c.key 0 (by decide) hafter) ?_ ?_
        · intro s hs
          have := (List.mem_filter.mp hs).2
          simp only [decide_eq_true_eq] at this
          omega
        · intro s hs hlt
          exact List.mem_filter.mpr ⟨(hlive s hs).2.2, decide_eq_true (by omega)⟩
      · -- beyond the last number a page is empty
        have hnone : checkedAdd after 1 = none := by
          unfold checkedAdd
          rw [if_neg hafter]
        have hmap : ps.mapRuns c.key after 0 mapMaxRuns = ([], false) := by
          unfold PacketStore.mapRuns
          rw [hnone]
        rw [hmap]
        refine Receive.follows_scan hp hf'
          (⟨Runs.Ascending.nil, by simp, by simp, by simp⟩ : PacketStore.ScanOf 0 [] [] false)
          (by simp) ?_
        intro s hs hlt
        have := (hlive s hs).2.1
        omega
  | lastSeq hp => exact ⟨Receive.follows_onMap hp hf', hc'⟩
  | load hp => exact ⟨Receive.follows_load hp hf' hc', hc'⟩
  | @pull seq stop todo packets hp hpull =>
      have hto : Receive.batchEnd seq stop < u64Size := by
        unfold Receive.batchEnd saturatingAdd
        have : 0 < u64Size := by decide
        omega
      refine ⟨Receive.follows_onPull hp hf' (PacketStore.pull_sorted hpull) ?_ ?_, hc'⟩
      · exact fun pkt hpkt => ((PacketStore.mem_pull hpull hto).mp hpkt).2.1
      · intro s hs hge hle
        obtain ⟨data, hdata⟩ := PacketStore.mem_live.mp (hlive s hs).2.2
        have hpos := hEpos s hs
        exact ⟨⟨s, data⟩, (PacketStore.mem_pull hpull hto).mpr
          ⟨show seq - 1 < s by omega, hle, hdata⟩, rfl⟩
  | skip hp =>
      refine ⟨Receive.follows_skip hp hf', hc'.raise ?_⟩
      have := hf'.settled (fun s hb => by
        simp only [Receive.Beyond, hp] at hb
        exact hb.2.2)
      simpa only [Receive.front, hp] using this
  | packet hp hstep =>
      obtain ⟨h1, h2⟩ := hpacket _ _ _ _ _ hp _ _ _ _ hstep rfl
      refine ⟨Receive.follows_packet hp hf hS h1 h2 ?_, ?_⟩
      · intro u hu
        cases hstep with
        | undecryptable => cases hu
        | own _ hto => exact advanceTo_skip hto hu
        | processed _ hto => exact advanceTo_skip hto hu
      · rw [LocalStore.getLastPulledSeq_congr (congrFun hstep.dialogueState c.key)]
        exact hc'
  | advance hp =>
      refine ⟨Receive.follows_advance hp hf', hc'.raise ?_⟩
      have := hf'.settled (fun s hb => by
        simp only [Receive.Beyond, hp] at hb
        exact hb.2.2)
      simpa only [Receive.front, hp] using this
  | bump hp _ =>
      refine ⟨Receive.follows_bump hp hf', hc'.raise ?_⟩
      intro s hs hle
      have := hf'.known s hs
      simp only [Receive.Ahead, Receive.Pending, Receive.Beyond, Receive.Above, hp, and_false,
        false_or] at this
      rcases this with h | ⟨⟨_, h, _⟩, _⟩
      · exact h
      · omega
  | stay hp _ => exact ⟨Receive.follows_bump hp hf', hc'⟩
  | sweep hp _ => exact ⟨Receive.follows_sweep (Or.inl hp) (Or.inl rfl) hf', hc'⟩
  | tombstones hp _ => exact ⟨Receive.follows_sweep (Or.inl hp) (Or.inr ⟨_, rfl⟩) hf', hc'⟩
  | delete hp => exact ⟨Receive.follows_sweep (Or.inr ⟨_, hp⟩) (Or.inl rfl) hf', hc'⟩

end Follows

namespace World

variable [Aead κ π] {cfg : Setup κ n} {w w' : World π n} {l : Label π n}

/-- On every device the cursor and the running `receive`s pass over nothing: `E` are the numbers
that matter to a device, `S` those it has settled, `N` those that are new to a call. -/
structure Tracks (cfg : Setup κ n) (w : World π n) (E S : Fin n → Nat → Prop)
    (N : Fin n → Nat → Nat → Prop) : Prop where
  cursor : ∀ d, Settled (E d) (S d) (w.cursor cfg d)
  running : ∀ d, ∀ rx ∈ w.receiving d, rx.run.Follows (E d) (S d) (N d rx.since)

/-- **One step passes over nothing.** -/
theorem tracks_step {E E' S S' : Fin n → Nat → Prop} {N N' : Fin n → Nat → Nat → Prop}
    (h : StepCase cfg w l w') (hrelay : l.isRelay = false) (ht : Tracks cfg w E S N)
    (hlive : ∀ d s, E d s → 0 < s ∧ s < u64Size ∧ s ∈ w.server.store.live cfg.key)
    (hpos : ∀ d s, E' d s → 0 < s) (hS : ∀ d s, E d s → S d s → S' d s)
    (hN : ∀ d since s, N d since s → N' d since s)
    (hE : ∀ d s, E' d s → E d s ∨ S' d s ∨ (w.cursor cfg d < s
      ∧ ∀ rx ∈ w.receiving d, rx.run.Ahead s ∨ (rx.run.Beyond s ∧ N' d rx.since s)))
    (hsame : w'.server = w.server → ∀ d s, E' d s → E d s ∨ S' d s)
    (hpacket : ∀ d, ∀ rx ∈ w.receiving d, ∀ rx', Moves cfg w l d rx rx' w' →
      ∀ (now : Int) pkt queue batchEnd stop todo,
      rx.run.point = .packet pkt queue batchEnd stop todo → ∀ target own skipUntil counted,
      PacketStep (cfg.device d) now (w.store d) pkt (w'.store d) target own skipUntil counted →
      rx'.run.decryptErrors = rx.run.decryptErrors ++ counted →
      (E d pkt.seq → S' d pkt.seq) ∧ ∀ s, pkt.seq < s → s ≤ target → E d s → S' d s) :
    Tracks cfg w' E' S' N' := by
  have hkey : ∀ d, (cfg.device d).key = cfg.key := cfg.shared
  have hmove : ∀ d, ∀ rx ∈ w.receiving d, ∀ rx', Moves cfg w l d rx rx' w' →
      rx'.run.Follows (E' d) (S' d) (N' d rx'.since) ∧ Settled (E' d) (S' d) (w'.cursor cfg d) := by
    intro d rx hrx rx' hm
    obtain ⟨env, notices, job, hmv, hlog⟩ := hm.move
    have hd : rx'.run.Follows (E d) (S' d) (N d rx.since)
        ∧ Settled (E d) (S' d) ((w'.store d).getLastPulledSeq (cfg.device d).key) :=
      hmv.follows (ht.running d rx hrx)
        (by rw [hkey]; exact ht.cursor d) (by rw [hkey]; exact hlive d) (hS d)
        (hpacket d rx hrx rx' hm env.now)
    have hsub := hsame hm.server d
    refine ⟨?_, ?_⟩
    · rw [hm.since]
      exact hd.1.mono (fun _ _ h => h) (hN d rx.since) (fun s hs => (hsub s hs).imp_right Or.inl)
    · intro s hs hle
      rw [cursor, ← hkey d] at hle
      rcases hsub s hs with h' | h'
      · exact hd.2 s h' hle
      · exact h'
  constructor
  · intro d
    rcases cursor_step h d with hcur | ⟨rx, hrx, rx', hm⟩
    · intro s hs hle
      rw [hcur] at hle
      rcases hE d s hs with h' | h' | ⟨h', _⟩
      · exact hS d s h' (ht.cursor d s h' hle)
      · exact h'
      · omega
    · exact (hmove d rx hrx rx' hm).2
  · intro d rx' hrx'
    rcases receiving_step h hrelay hrx' with hold | rfl | ⟨rx, hrx, hm⟩
    · refine (ht.running d rx' hold).mono (hS d) (hN d rx'.since) (fun s hs => ?_)
      rcases hE d s hs with h' | h' | ⟨_, h'⟩
      · exact Or.inl h'
      · exact Or.inr (Or.inl h')
      · exact Or.inr (Or.inr (h' rx' hold))
    · exact Receive.follows_start (hpos d)
    · exact (hmove d rx hrx rx' hm).1

end World

end Paranoia
