import Paranoia.Proof.Sweep

/-!
# What a completed `receive` leaves behind

While the server stands still, what the map of a `receive` reports is live. Its sweep reads
the confirmed messages once, and removes those the map does not report in a second access:
if no message whose packet is gone is confirmed from the one access to the other, every
confirmed message that is left has a live number. Messages that are only sent are no part
of this: the sweep passes them over.
-/

namespace Paranoia

variable {κ π : Type} {n : Nat}

namespace Receive

variable {r : Receive π} {live delivered : List Nat} {s : Nat}

/-- What the map reports is live, and after the comparison the messages that are not are found, and
after the sweep removed. -/
def Settles (live delivered : List Nat) (r : Receive π) : Prop :=
  match r.point with
  | .delete ts => ∀ s ∈ delivered, s ∈ live ∨ s ∈ ts
  | .done => ∀ s ∈ delivered, s ∈ live
  | _ => ∀ s, Runs.Covers r.reported s → s ∈ live

/-- Before the comparison this is about the map alone. -/
theorem settles_iff (h : r.Sweeps = true) :
    r.Settles live delivered ↔ ∀ s, Runs.Covers r.reported s → s ∈ live := by
  unfold Settles
  cases hp : r.point with
  | delete ts =>
      simp only [Sweeps, hp] at h
      cases h
  | done =>
      simp only [Sweeps, hp] at h
      cases h
  | _ => exact Iff.rfl

theorem settles_start : (start : Receive π).Settles live delivered := by
  intro s hs
  exact absurd hs Runs.not_covers_nil

/-- A page that is added to the map was reported already. -/
theorem reported_onMap {runs : List (Nat × Nat)} {truncated : Bool} {lastSeq : Nat}
    (hp : r.point = .scanned runs truncated)
    (h : Runs.Covers (r.onMap ⟨runs, lastSeq, truncated⟩).reported s) :
    Runs.Covers r.reported s := by
  unfold onMap at h
  dsimp only at h
  cases hend : Runs.lastEnd? runs with
  | none =>
      rw [hend] at h
      simp only [reported, hp]
      exact Runs.covers_append.mpr (Or.inl h)
  | some lastEnd =>
      rw [hend] at h
      simp only [reported, hp]
      cases truncated <;> simpa [reported] using h

end Receive

section Move

open Receive

variable [Aead κ π] {c : Client κ} {env : Env} {ps : PacketStore π} {st st' : LocalStore}
  {r r' : Receive π} {notices : List (Notice π)}

/-- **A move keeps what is settled** against a server that stands still. -/
theorem RxMove.settles (h : RxMove c env ps st r st' r' notices) (ho : r.Ordered)
    (hs : r.Settles (ps.live c.key) (st.getDeliveredServerSeqs c.key)) :
    r'.Settles (ps.live c.key) (st'.getDeliveredServerSeqs c.key) := by
  -- a call that is past the map and comes no further than the comparison
  have hpast : ∀ {r₁ : Receive π}, r.Sweeps = true → r.reported = r.allRuns → r₁.PastMap →
      r₁.allRuns = r.allRuns → r₁.Sweeps = true →
      r₁.Settles (ps.live c.key) (st'.getDeliveredServerSeqs c.key) := by
    intro r₁ hsw hrep hpm hruns hsw₁
    rw [settles_iff hsw, hrep] at hs
    rw [settles_iff hsw₁, hpm.2, hruns]
    exact hs
  cases h with
  | @scan after hp =>
      have hsw : r.Sweeps = true := by simp only [Sweeps, hp]
      rw [settles_iff hsw] at hs
      rw [settles_iff rfl]
      intro s hc
      rcases Runs.covers_append.mp hc with hc | hc
      · refine hs s ?_
        simpa only [reported, hp] using hc
      · by_cases hafter : after + 1 < u64Size
        · have hscan := PacketStore.mapRuns_spec ps c.key 0 (by decide : 0 < mapMaxRuns) hafter
          exact (List.mem_filter.mp (hscan.sound s hc).1).1
        · have hnone : checkedAdd after 1 = none := if_neg hafter
          rw [PacketStore.mapRuns, hnone] at hc
          exact absurd hc Runs.not_covers_nil
  | lastSeq hp =>
      have hsw : r.Sweeps = true := by simp only [Sweeps, hp]
      rw [settles_iff hsw] at hs
      rw [settles_iff (sweeps_onMap r _)]
      exact fun s hc => hs s (reported_onMap hp hc)
  | load hp =>
      have hsw : r.Sweeps = true := by simp only [Sweeps, hp]
      rw [settles_iff hsw] at hs
      obtain ⟨hpm, hruns⟩ := pastMap_nextRun ({ r with
        allRuns := r.allRuns.insertionSort (fun a b => a.1 ≤ b.1)
        cursor := st.getLastPulledSeq c.key } : Receive π)
        (r.allRuns.insertionSort (fun a b => a.1 ≤ b.1))
      rw [settles_iff (sweeps_nextRun _ _), hpm.2, hruns]
      intro s hc
      refine hs s ?_
      simp only [reported, hp]
      exact covers_insertionSort.mp hc
  | pull hp =>
      exact hpast (by simp only [Sweeps, hp]) (by simp only [reported, hp])
        (pastMap_onPull r _ _ _ _).1 (pastMap_onPull r _ _ _ _).2 (sweeps_onPull r _ _ _ _)
  | skip hp =>
      exact hpast (by simp only [Sweeps, hp]) (by simp only [reported, hp])
        (pastMap_nextBatch _ _ _ _).1 (pastMap_nextBatch _ _ _ _).2 (sweeps_nextBatch _ _ _ _)
  | advance hp =>
      exact hpast (by simp only [Sweeps, hp]) (by simp only [reported, hp])
        (pastMap_nextPacket _ _ _ _ _).1 (pastMap_nextPacket _ _ _ _ _).2
        (sweeps_nextPacket _ _ _ _ _)
  | packet hp | bump hp | stay hp =>
      exact hpast (by simp only [Sweeps, hp]) (by simp only [reported, hp])
        ⟨fun _ => trivial, rfl⟩ rfl rfl
  | sweep hp hnone =>
      have hasc : Runs.Ascending r.allRuns := by simpa only [Ordered, hp] using ho
      have hlive : ∀ s, Runs.Covers r.reported s → s ∈ ps.live c.key := by
        rwa [settles_iff (by simp only [Sweeps, hp])] at hs
      intro s hmem
      refine hlive s ?_
      simp only [reported, hp]
      rw [← seqInRuns_eq_true hasc]
      have hnot := List.filter_eq_nil_iff.mp hnone s hmem
      simpa using hnot
  | @tombstones ts hp hts =>
      have hasc : Runs.Ascending r.allRuns := by simpa only [Ordered, hp] using ho
      have hlive : ∀ s, Runs.Covers r.reported s → s ∈ ps.live c.key := by
        rwa [settles_iff (by simp only [Sweeps, hp])] at hs
      intro s hmem
      by_cases hcov : Runs.Covers r.allRuns s
      · refine Or.inl (hlive s ?_)
        simpa only [reported, hp] using hcov
      · right
        rw [← hts]
        refine List.mem_filter.mpr ⟨hmem, ?_⟩
        rw [← seqInRuns_eq_true hasc] at hcov
        simpa using hcov
  | @delete ts hp =>
      have hfound : ∀ s ∈ st.getDeliveredServerSeqs c.key, s ∈ ps.live c.key ∨ s ∈ ts := by
        simpa only [Settles, hp] using hs
      intro s hmem
      obtain ⟨m, hm, hd, hstatus, hseq⟩ := LocalStore.mem_getDeliveredServerSeqs.mp hmem
      obtain ⟨hm, hkept⟩ := LocalStore.mem_deleteMessagesBySeqs.mp hm
      refine (hfound s (LocalStore.mem_getDeliveredServerSeqs.mpr
        ⟨m, hm, hd, hstatus, hseq⟩)).resolve_right (fun hts => ?_)
      exact hkept ⟨hd, s, hts, hseq⟩

end Move

/-! ## Runs -/

namespace World

/-- The `receive` running in a call, with its device. -/
def running (w : World π n) (id : Nat) : Option (Fin n × Receive π) :=
  (w.job id).bind (fun job => job.task.rx.map (fun rx => (job.dev, rx.run)))

theorem running_eq_some {w : World π n} {id : Nat} {d : Fin n} {r : Receive π} :
    w.running id = some (d, r) ↔ ∃ job ∈ w.jobs, job.id = id ∧ job.dev = d ∧
      ∃ rx, job.task.rx = some rx ∧ rx.run = r := by
  unfold running
  constructor
  · intro h
    obtain ⟨job, hjob, h⟩ := Option.bind_eq_some_iff.mp h
    obtain ⟨rx, hrx, heq⟩ := Option.map_eq_some_iff.mp h
    cases heq
    exact ⟨job, (job_mem hjob).1, (job_mem hjob).2, rfl, rx, hrx, rfl⟩
  · rintro ⟨job, hjob, rfl, rfl, rx, hrx, rfl⟩
    rw [job_of_mem hjob, Option.bind_some, hrx]
    rfl

/-- A call that has compared its messages with the map, and the messages that are confirmed on its
device meanwhile: none of them is gone from the server. -/
def NoneRevived (cfg : Setup κ n) (id : Nat) (w w' : World π n) : Prop :=
  match w.running id with
  | some (d, r) => r.Sweeps = false → ∀ s ∈ w'.confirmed cfg d, s ∉ w.confirmed cfg d →
      s ∈ w.server.store.live cfg.key
  | none => True

instance (cfg : Setup κ n) (id : Nat) (w w' : World π n) :
    Decidable (w.NoneRevived cfg id w') := by
  unfold NoneRevived
  split <;> infer_instance

/-- The parts of every map are in order, and what the call knows of its map is so. -/
structure Settling (cfg : Setup κ n) (id : Nat) (w : World π n) : Prop where
  ordered : ∀ d, ∀ rx ∈ w.receiving d, rx.run.Ordered
  settles : ∀ d r, w.running id = some (d, r) →
    r.Settles (w.server.store.live cfg.key) (w.confirmed cfg d)

/-- Nothing but what is confirmed, and for a call that is past the comparison nothing revived, has
to be looked at. -/
theorem settles_confirmed {cfg : Setup κ n} {id : Nat} {w w' : World π n} {d : Fin n}
    {r : Receive π} {live : List Nat} (hnone : w.NoneRevived cfg id w')
    (hlive : w.server.store.live cfg.key = live) (hrun : w.running id = some (d, r))
    (hs : r.Settles live (w.confirmed cfg d)) : r.Settles live (w'.confirmed cfg d) := by
  cases hsw : r.Sweeps with
  | true => exact (Receive.settles_iff hsw).mpr ((Receive.settles_iff hsw).mp hs)
  | false =>
      have hnew : ∀ s ∈ w'.confirmed cfg d, s ∈ w.confirmed cfg d ∨ s ∈ live := by
        intro s hmem
        by_cases hold : s ∈ w.confirmed cfg d
        · exact Or.inl hold
        · rw [NoneRevived, hrun] at hnone
          exact Or.inr (hlive ▸ hnone hsw s hmem hold)
      unfold Receive.Settles at hs ⊢
      unfold Receive.Sweeps at hsw
      cases hp : r.point with
      | delete ts =>
          rw [hp] at hs
          exact fun s hmem => (hnew s hmem).elim (hs s) Or.inl
      | done =>
          rw [hp] at hs
          exact fun s hmem => (hnew s hmem).elim (hs s) (fun h => h)
      | _ => simp [hp] at hsw

variable [Aead κ π] {cfg : Setup κ n} {id : Nat} {w w' : World π n} {l : Label π n}

theorem settling_step (h : StepCase cfg w l w') (hrelay : l.isRelay = false)
    (hlive : w'.server.store.live cfg.key = w.server.store.live cfg.key)
    (hnone : w.NoneRevived cfg id w') (hi : Settling cfg id w) : Settling cfg id w' := by
  refine ⟨ordered_step h hrelay hi.ordered, fun d r hrun => ?_⟩
  rw [hlive]
  obtain ⟨job', hj, rfl, rfl, rx', hrx', rfl⟩ := running_eq_some.mp hrun
  rcases running_step h hrelay hj hrx' with ⟨job, hjob, hid, hdev, hrx⟩ | rfl |
    ⟨job, hjob, hid, hdev, rx, hrx, hm⟩
  · have hold : w.running job'.id = some (job'.dev, rx'.run) :=
      running_eq_some.mpr ⟨job, hjob, hid, hdev, rx', hrx, rfl⟩
    exact settles_confirmed hnone rfl hold (hi.settles _ _ hold)
  · exact Receive.settles_start
  · have hold : w.running job'.id = some (job'.dev, rx.run) :=
      running_eq_some.mpr ⟨job, hjob, hid, hdev, rx, hrx, rfl⟩
    have hmem : rx ∈ w.receiving job'.dev := mem_receiving.mpr ⟨job, hjob, hdev, hrx⟩
    have hs := hi.settles _ _ hold
    obtain ⟨env, notices, _, hmove, _⟩ := hm.move
    unfold confirmed at hs ⊢
    rw [← cfg.shared job'.dev] at hs ⊢
    exact hmove.settles (hi.ordered _ rx hmem) hs

end World

namespace Session

def Label.isRelay : Label π n → Bool
  | .world l => l.isRelay
  | _ => false

section Run

variable [Aead κ π] (cfg : Setup κ n) {s₀ s s' : Session π n} {l : Label π n} {id : Nat}

/-- The server stands still, and its answers are its own. -/
def QuietStep (s : Session π n) (l : Label π n) : Prop :=
  l.isRelay = false ∧
  match step cfg s l with
  | some s' => s'.world.server.store.live cfg.key = s.world.server.store.live cfg.key
  | none => True

/-- Besides, from the comparison of the call `id` on no message that is gone from the server is
confirmed on its device. -/
def StillStep (id : Nat) (s : Session π n) (l : Label π n) : Prop :=
  s.QuietStep cfg l ∧
  match step cfg s l with
  | some s' => s.world.NoneRevived cfg id s'.world
  | none => True

instance (s : Session π n) (l : Label π n) : Decidable (s.QuietStep cfg l) := by
  unfold QuietStep
  refine @instDecidableAnd _ _ inferInstance ?_
  exact match step cfg s l with
    | some _ | none => by infer_instance

instance (s : Session π n) (l : Label π n) : Decidable (s.StillStep cfg id l) := by
  unfold StillStep
  refine @instDecidableAnd _ _ inferInstance ?_
  exact match step cfg s l with
    | some _ | none => by infer_instance

variable {cfg}

theorem ordered_step (h : ∀ d, ∀ rx ∈ s.world.receiving d, rx.run.Ordered)
    (hrelay : l.isRelay = false) (hs : step cfg s l = some s') :
    ∀ d, ∀ rx ∈ s'.world.receiving d, rx.run.Ordered := by
  cases l with
  | world wl =>
      simp only [step] at hs
      split at hs
      · cases hs
      · rename_i w' hw
        cases hs
        exact World.ordered_step (World.step_inv hw) hrelay h
  | ask dev =>
      simp only [step] at hs
      split at hs <;> cases hs
      exact h
  | arrived i partnerLastSeq =>
      simp only [step] at hs
      split at hs <;> cases hs <;> exact h

theorem settling_step (h : s.world.Settling cfg id) (hok : s.StillStep cfg id l)
    (hs : step cfg s l = some s') : s'.world.Settling cfg id := by
  obtain ⟨⟨hrelay, hlive⟩, hnone⟩ := hok
  rw [hs] at hlive hnone
  cases l with
  | world wl =>
      simp only [step] at hs
      split at hs
      · cases hs
      · rename_i w' hw
        cases hs
        exact World.settling_step (World.step_inv hw) hrelay hlive hnone h
  | ask dev =>
      simp only [step] at hs
      split at hs <;> cases hs
      exact h
  | arrived i partnerLastSeq =>
      simp only [step] at hs
      split at hs
      · cases hs
      · cases hs
        exact h
      · cases hs
        refine ⟨h.ordered, fun d r hrun => ?_⟩
        exact World.settles_confirmed hnone rfl hrun (h.settles d r hrun)

/-- **What is deleted for everybody disappears** from a device that syncs: in every history, once a
`receive` that began as the server stood still has run to its end, every delivered or read
message of the dialogue on its device has a number that is live. -/
theorem synced (hr₀ : Lts.Reach (step cfg) (fun _ l => l.isRelay = false) (init cfg) s₀)
    {d₀ : Fin n} (hstart : s₀.world.running id = some (d₀, Receive.start))
    (hr : Lts.Reach (step cfg) (StillStep cfg id) s₀ s) {d : Fin n} {r : Receive π}
    (hrun : s.world.running id = some (d, r)) (hdone : r.point = .done) {m : Message}
    (hm : m ∈ (s.world.store d).messages) (hd : m.dialogue = cfg.key)
    (hstatus : m.status = .delivered ∨ m.status = .read) {seq : Nat}
    (hseq : m.serverSeq = some seq) : seq ∈ s.world.server.store.live cfg.key := by
  have hordered : ∀ d, ∀ rx ∈ s₀.world.receiving d, rx.run.Ordered :=
    hr₀.invariant (P := fun s => ∀ d, ∀ rx ∈ s.world.receiving d, rx.run.Ordered)
      (fun _ _ h => absurd h List.not_mem_nil) (fun _ _ _ _ h hok hs => ordered_step h hok hs)
  have hinit : s₀.world.Settling cfg id := by
    refine ⟨hordered, fun d r hrun => ?_⟩
    rw [hstart] at hrun
    cases hrun
    exact Receive.settles_start
  have hi : s.world.Settling cfg id :=
    hr.invariant (P := fun s => s.world.Settling cfg id) hinit
      (fun _ _ _ _ h hok hs => settling_step h hok hs)
  have hs := hi.settles d r hrun
  unfold Receive.Settles at hs
  rw [hdone] at hs
  exact hs seq (LocalStore.mem_getDeliveredServerSeqs.mpr ⟨m, hm, hd, hstatus, hseq⟩)

end Run

/-- Bob's device has `m1` and `m2`, the first is deleted, and its next `receive`, call `3`,
begins. -/
def oneDeleted : List (Paranoia.Label Sealed 3) :=
  Sample.sends 0 0 "m1" ++ Sample.sends 0 1 "m2" ++ [.start 1 .receive, .scan 2, .lastSeq 2] ++
    Sample.steps 2 1 ++ [.pull 2] ++ Sample.steps 2 7 ++ [.remove 1 1, .start 1 .receive]

/-- The call runs to its end. -/
def syncs (job count : Nat) : List (Paranoia.Label Sealed 3) :=
  [.scan job, .lastSeq job] ++ Sample.steps job count

/-- The session after a list of steps, all of them honest. -/
def after (ls : List (Paranoia.Label Sealed 3)) : Session Sealed 3 :=
  (Lts.execWhile (step Sample.setup) (fun _ l => l.isRelay = false) (init Sample.setup)
    (ls.map .world)).getD (init Sample.setup)

/-- The session after these steps of call `id` and others while the server stands still. -/
def still (s : Session Sealed 3) (id : Nat) (ls : List (Paranoia.Label Sealed 3)) :
    Session Sealed 3 :=
  (Lts.execWhile (step Sample.setup) (StillStep Sample.setup id) s (ls.map .world)).getD s

/-- The row of `m2` on Bob's device. -/
def secondOfBob : Message :=
  ⟨"m2", ⟨"alice", "bob"⟩, "alice", .text "m2", 0, .delivered, some 2, none, none⟩

/-- The message that was not deleted is left, and it is live. -/
theorem synced_oneDeleted :
    (after oneDeleted).world.running 3 = some (1, Receive.start) ∧
      2 ∈ (still (after oneDeleted) 3 (syncs 3 4)).world.server.store.live Sample.setup.key := by
  have h₀ : (Lts.execWhile (step Sample.setup) (fun _ l => l.isRelay = false) (init Sample.setup)
      (oneDeleted.map .world)).isSome = true := by decide
  have h : (Lts.execWhile (step Sample.setup) (StillStep Sample.setup 3) (after oneDeleted)
      ((syncs 3 4).map .world)).isSome = true := by decide
  have hstart : (after oneDeleted).world.running 3 = some (1, Receive.start) := by decide
  have hrun : (still (after oneDeleted) 3 (syncs 3 4)).world.running 3
      = some (1, ⟨[(2, 2)], 2, 2, [], [], .done⟩) := by decide
  have hrow : secondOfBob ∈ ((still (after oneDeleted) 3 (syncs 3 4)).world.store 1).messages := by
    decide
  exact ⟨hstart, synced (Lts.reach_getD h₀) hstart (Lts.reach_getD h) hrun rfl hrow rfl
    (Or.inl rfl) rfl⟩

/-- Alice's `m1` is acknowledged and deleted before she has met it, and her `receive`, call `1`,
begins. -/
def ownDeleted : List (Paranoia.Label Sealed 3) :=
  Sample.sends 0 0 "m1" ++ [.remove 1 1, .start 0 .receive]

/-- The row of `m1` on Alice's device. -/
def sentOfAlice : Message :=
  ⟨"m1", ⟨"alice", "bob"⟩, "alice", .text "m1", 0, .sent, some 1, none, none⟩

/-- Alice's second device has `m1` and has sent `m2`, both are deleted, and its next `receive`,
call `3`, begins. -/
def bothDeleted : List (Paranoia.Label Sealed 3) :=
  Sample.sends 0 0 "m1" ++ [.start 2 .receive, .scan 1, .lastSeq 1] ++ Sample.steps 1 1 ++
    [.pull 1] ++ Sample.steps 1 5 ++ Sample.sends 2 2 "m2" ++ [.remove 1 2, .start 2 .receive]

/-- The row of `m2`, once the device has heard that Bob is at `2`. -/
def readOfAlice : Message :=
  ⟨"m2", ⟨"alice", "bob"⟩, "alice", .text "m2", 0, .read, some 2, none, none⟩

/-- The call comes to its sweep, `m2` is marked read, and the sweep takes what it found before. -/
def readMeanwhile : List (Label Sealed 3) :=
  (syncs 3 3).map .world ++ [.ask 2, .arrived 0 (some 2)] ++ (Sample.steps 3 1).map .world

/-- A message of the account that is only sent stays, though its packet is gone, and so does one
that is marked read after the sweep has looked. -/
theorem sent_row_stays :
    (¬ ∀ (s₀ s : Session Sealed 3) (id : Nat) (d₀ d : Fin 3) (r : Receive Sealed),
      Lts.Reach (step Sample.setup) (fun _ l => l.isRelay = false) (init Sample.setup) s₀ →
      s₀.world.running id = some (d₀, Receive.start) →
      Lts.Reach (step Sample.setup) (StillStep Sample.setup id) s₀ s →
      s.world.running id = some (d, r) → r.point = .done →
      ∀ m ∈ (s.world.store d).messages, m.dialogue = Sample.setup.key →
      ∀ seq, m.serverSeq = some seq →
      (∃ job req, (job, req) ∈ s.world.accepted ∧ req.sender = m.sender ∧ req.seq = seq) →
        seq ∈ s.world.server.store.live Sample.setup.key) ∧
    ¬ ∀ (s₀ s : Session Sealed 3) (id : Nat) (d₀ d : Fin 3) (r : Receive Sealed),
      Lts.Reach (step Sample.setup) (fun _ l => l.isRelay = false) (init Sample.setup) s₀ →
      s₀.world.running id = some (d₀, Receive.start) →
      Lts.Reach (step Sample.setup) (QuietStep Sample.setup) s₀ s →
      s.world.running id = some (d, r) → r.point = .done →
      ∀ m ∈ (s.world.store d).messages, m.dialogue = Sample.setup.key →
      m.status = .delivered ∨ m.status = .read → ∀ seq, m.serverSeq = some seq →
        seq ∈ s.world.server.store.live Sample.setup.key := by
  constructor
  · intro h
    have h₀ : (Lts.execWhile (step Sample.setup) (fun _ l => l.isRelay = false)
        (init Sample.setup) (ownDeleted.map .world)).isSome = true := by decide
    have h₁ : (Lts.execWhile (step Sample.setup) (StillStep Sample.setup 1) (after ownDeleted)
        ((syncs 1 3).map .world)).isSome = true := by decide
    have hrun : (still (after ownDeleted) 1 (syncs 1 3)).world.running 1
        = some (0, ⟨[], 0, 0, [], [], .done⟩) := by decide
    have hrow : sentOfAlice ∈
        ((still (after ownDeleted) 1 (syncs 1 3)).world.store 0).messages := by decide
    have hacc : ∃ job req, (job, req) ∈
        (still (after ownDeleted) 1 (syncs 1 3)).world.accepted ∧
          req.sender = sentOfAlice.sender ∧ req.seq = 1 :=
      ⟨some 0, _, List.Mem.head _, rfl, rfl⟩
    have hlive := h _ _ 1 0 0 _ (Lts.reach_getD h₀) (by decide) (Lts.reach_getD h₁) hrun rfl
      sentOfAlice hrow rfl 1 rfl hacc
    revert hlive
    decide
  · intro h
    have h₀ : (Lts.execWhile (step Sample.setup) (fun _ l => l.isRelay = false)
        (init Sample.setup) (bothDeleted.map .world)).isSome = true := by decide
    have h₁ : (Lts.execWhile (step Sample.setup) (QuietStep Sample.setup) (after bothDeleted)
        readMeanwhile).isSome = true := by decide
    have hlive := h _ _ 3 2 2 ⟨[], 0, 1, [], [], .done⟩ (Lts.reach_getD h₀) (by decide)
      (Lts.reach_getD h₁) (by decide) rfl readOfAlice (by decide) rfl (Or.inr rfl) 2 rfl
    revert hlive
    decide

end Session

end Paranoia
