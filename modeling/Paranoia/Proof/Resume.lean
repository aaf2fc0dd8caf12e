import Paranoia.Proof.Compose

/-!
# Uploads that are taken up again

An upload reserves a range of numbers on its own device, and a resume takes a
number of the range that is live for a packet that is already there. Nothing keeps
another device from pushing at those numbers, so a transfer can be marked `Sent`
over somebody else's packet (`marked_over_foreign_packet`).

`Ranges` is what the code relies on: in the range of a transfer only the packets of
the transfer are accepted. Under it every packet that an upload or a resume has
passed was delivered (`Progress`), so a transfer that is finished is complete on
the server, whatever interrupted it (`complete_reachable`).
-/

namespace Paranoia

variable {κ π : Type} {n : Nat}

/-- The number is one of the transfer's. -/
def OutboundTransfer.InRange (t : OutboundTransfer) (s : Nat) : Prop :=
  t.headerSeq ≤ s ∧ s ≤ t.headerSeq + t.chunkSizes.length

instance (t : OutboundTransfer) (s : Nat) : Decidable (t.InRange s) :=
  inferInstanceAs (Decidable (_ ∧ _))

/-- The attempts of a transfer are no part of its packets. -/
theorem OutboundTransfer.packet_original (c : Client κ) (t : OutboundTransfer) (i : Nat) :
    t.original.packet c i = t.packet c i := by
  cases i <;> rfl

theorem OutboundTransfer.headerSeq_congr {t t' : OutboundTransfer}
    (he : t.original = t'.original) : t.headerSeq = t'.headerSeq := by
  have hseq := congrArg OutboundTransfer.headerSeq he
  exact hseq

theorem OutboundTransfer.InRange.congr {t t' : OutboundTransfer} (he : t.original = t'.original)
    {s : Nat} (h : t.InRange s) : t'.InRange s := by
  have hsizes := congrArg OutboundTransfer.chunkSizes he
  change t.chunkSizes = t'.chunkSizes at hsizes
  unfold InRange at h ⊢
  rwa [← headerSeq_congr he, ← hsizes]

namespace World

section Defs

variable (cfg : Setup κ n) (w : World π n)

/-- The range a step is about to reserve: its first number and how many follow. -/
def reserving : Label π n → Option (Nat × Nat)
  | .localStep id env =>
      (w.job id).bind (fun job =>
        match job.task.rx, job.task.outer with
        | none, .reserve _ =>
            match ((w.store job.dev).reserveSendSeqRange cfg.key (1 + env.chunkSizes.length)).2 with
            | .ok headerSeq => some (headerSeq, env.chunkSizes.length)
            | .error _ => none
        | _, _ => none)
  | _ => none

/-- The push carries a packet of the transfer, as the device composed it. -/
def CarriesPacket (d : Fin n) (t : OutboundTransfer) (req : PushRequest π) : Prop :=
  ∃ inner ∈ t.packet (cfg.device d) (req.seq - t.headerSeq),
    .composed req.seq inner req.payload ∈ w.notices d

/-- In the range of a transfer of `ts` only packets of the transfer are accepted, and no range is
reserved where a push was accepted before. -/
def KeepsRanges (ts : Fin n → List OutboundTransfer) (l : Label π n) : Prop :=
  (∀ a ∈ w.incoming l, w.Accepts a.2 → a.2.dialogue = cfg.key → ∀ d, ∀ t ∈ ts d,
      t.InRange a.2.seq → w.CarriesPacket cfg d t a.2)
    ∧ ∀ r ∈ w.reserving cfg l, ∀ a ∈ w.accepted, a.2.dialogue = cfg.key →
        ¬ (r.1 ≤ a.2.seq ∧ a.2.seq ≤ r.1 + r.2)

/-- An honest step that deletes nothing and leaves the ranges of the transfers that are worked on
to them. -/
def UndisturbedStep (l : Label π n) : Prop :=
  l.isRelay = false ∧ l.isRemoval = false ∧ w.KeepsRanges cfg w.working l

instance [DecidableEq π] (d : Fin n) (t : OutboundTransfer) (req : PushRequest π) :
    Decidable (w.CarriesPacket cfg d t req) :=
  inferInstanceAs (Decidable (∃ inner ∈ _, _))

instance [DecidableEq π] (ts : Fin n → List OutboundTransfer) (l : Label π n) :
    Decidable (w.KeepsRanges cfg ts l) :=
  inferInstanceAs (Decidable (_ ∧ _))

instance [DecidableEq π] (l : Label π n) : Decidable (w.UndisturbedStep cfg l) :=
  inferInstanceAs (Decidable (_ ∧ _ ∧ _))

/-- In the ranges of these transfers there are only pushes of their packets. -/
def Ranges (ts : Fin n → List OutboundTransfer) : Prop :=
  ∀ d, ∀ t ∈ ts d, ∀ a ∈ w.accepted, a.2.dialogue = cfg.key → t.InRange a.2.seq →
    w.CarriesPacket cfg d t a.2

/-- Packet `i` of the transfer was accepted at its number. -/
def Delivered (d : Fin n) (t : OutboundTransfer) (i : Nat) : Prop :=
  ∃ a ∈ w.accepted, a.2.dialogue = cfg.key ∧ a.2.seq = t.headerSeq + i
    ∧ w.CarriesPacket cfg d t a.2

/-- The packets of the transfer whose numbers the runs cover are delivered. -/
def Found (d : Fin n) (t : OutboundTransfer) (present : List (Nat × Nat)) : Prop :=
  ∀ i ≤ t.chunkSizes.length, Runs.Covers present (t.headerSeq + i) → w.Delivered cfg d t i

/-- What a call has passed of a transfer is delivered. -/
def Progress (d : Fin n) : Outer π → Prop
  | .existing _ t _ present => w.Found cfg d t present
  | .transfer _ t present i =>
      w.Found cfg d t present ∧ ∀ j < i, j ≤ t.chunkSizes.length → w.Delivered cfg d t j
  | .transferring _ t present i p =>
      w.Found cfg d t present ∧ (∀ j < i, j ≤ t.chunkSizes.length → w.Delivered cfg d t j)
        ∧ p.req.seq = t.headerSeq + i ∧ w.CarriesPacket cfg d t p.req
  | .uploaded _ t => ∀ i ≤ t.chunkSizes.length, w.Delivered cfg d t i
  | .markSent _ t => ∀ i ≤ t.chunkSizes.length, w.Delivered cfg d t i
  | _ => True

/-- The ranges are kept, every call has delivered what it passed, and what is finished is
delivered. -/
structure Resuming : Prop where
  ranges : w.Ranges cfg w.working
  progress : ∀ job ∈ w.jobs, w.Progress cfg job.dev job.task.outer
  finished : ∀ d t, .finished t ∈ w.notices d →
    ∀ i ≤ t.chunkSizes.length, w.Delivered cfg d t i

/-- The server holds every packet of the transfer at its number, encrypted under the key for that
number. -/
def Complete [Aead κ π] (d : Fin n) (t : OutboundTransfer) : Prop :=
  ∀ i ≤ t.chunkSizes.length, ∃ inner key nonce, t.packet (cfg.device d) i = some inner
    ∧ keyForSeq (cfg.device d).keyring (t.headerSeq + i) = some key
    ∧ w.server.store.get cfg.key (t.headerSeq + i) = some (Aead.encrypt key nonce inner)

end Defs

variable {cfg : Setup κ n} {w w' : World π n} {l : Label π n} {d : Fin n} {t : OutboundTransfer}

theorem CarriesPacket.mono (hc : Continues w w') {req : PushRequest π}
    (h : w.CarriesPacket cfg d t req) : w'.CarriesPacket cfg d t req := by
  obtain ⟨inner, hp, hcomp⟩ := h
  exact ⟨inner, hp, hc.notices hcomp⟩

/-- The attempts of a transfer are no part of its packets. -/
theorem CarriesPacket.congr {t t' : OutboundTransfer} (he : t.original = t'.original)
    {req : PushRequest π} (h : w.CarriesPacket cfg d t' req) : w.CarriesPacket cfg d t req := by
  obtain ⟨inner, hp, hcomp⟩ := h
  refine ⟨inner, ?_, hcomp⟩
  rw [OutboundTransfer.headerSeq_congr he, ← OutboundTransfer.packet_original, he,
    OutboundTransfer.packet_original]
  exact hp

theorem Delivered.mono (hc : Continues w w') {i : Nat} (h : w.Delivered cfg d t i) :
    w'.Delivered cfg d t i := by
  obtain ⟨a, ha, hd, hs, hp⟩ := h
  exact ⟨a, hc.accepted ha, hd, hs, hp.mono hc⟩

theorem Found.mono (hc : Continues w w') {present : List (Nat × Nat)}
    (h : w.Found cfg d t present) : w'.Found cfg d t present :=
  fun i hi hcov => (h i hi hcov).mono hc

theorem Progress.mono (hc : Continues w w') {outer : Outer π} (h : w.Progress cfg d outer) :
    w'.Progress cfg d outer := by
  cases outer with
  | existing mode t after present => exact Found.mono hc h
  | transfer mode t present i => exact ⟨h.1.mono hc, fun j hj hle => (h.2 j hj hle).mono hc⟩
  | transferring mode t present i p =>
      exact ⟨h.1.mono hc, fun j hj hle => (h.2.1 j hj hle).mono hc, h.2.2.1, h.2.2.2.mono hc⟩
  | uploaded mode t => exact fun i hi => (h i hi).mono hc
  | markSent mode t => exact fun i hi => (h i hi).mono hc
  | _ => trivial

theorem progress_transferOver {mode : Mode} {task : Task π}
    (h : Task.transferError mode t = some task ∨ Task.transferOver mode = some task) :
    w.Progress cfg d task.outer := by
  cases mode with
  | upload => rcases h with h | h <;> cases h
  | resume attempts pending =>
      rcases h with h | h
      · simp only [Task.transferError] at h
        split at h <;> (cases h; trivial)
      · cases h
        trivial

/-- A live number of the range holds a delivered packet. -/
theorem found_map (hstored : Stored cfg w) (hranges : w.Ranges cfg w.working)
    (ht : t ∈ w.working d) {after toSeq : Nat} {m : MapResult}
    (hmap : w.server.store.map cfg.key after toSeq mapMaxRuns = .ok m) :
    w.Found cfg d t m.runs := by
  intro i hle hcov
  obtain ⟨data, hget⟩ := PacketStore.mem_live.mp
    (PacketStore.covers_map hmap (by decide) hcov)
  obtain ⟨a, ha, hd, he⟩ := hstored ⟨t.headerSeq + i, data⟩ (PacketStore.mem_packets.mpr hget)
  have hseq : a.2.seq = t.headerSeq + i := congrArg RawPacket.seq he
  have hrange : t.InRange a.2.seq := by
    unfold OutboundTransfer.InRange
    omega
  exact ⟨a, ha, hd, hseq, hranges d t ht a ha hd hrange⟩

theorem resuming_init : Resuming cfg (init cfg : World π n) where
  ranges _ _ ht := absurd ht List.not_mem_nil
  progress _ hj := absurd hj List.not_mem_nil
  finished _ _ ht := absurd ht List.not_mem_nil

section Step

variable [Aead κ π]

/-- A transfer is reserved over the range its step announces. -/
theorem Reserves.reserving (h : Reserves cfg w l w' d t) :
    (t.headerSeq, t.chunkSizes.length) ∈ w.reserving cfg l := by
  cases h with
  | @intro job env out _ hjob hrx hstep ht =>
      generalize hout : job.task.outer = outer at hstep
      cases hstep with
      | reserve hst hfile hsizes hseq =>
          cases List.mem_singleton.mp ht
          rw [cfg.shared] at hseq
          simp only [World.reserving, job_of_mem hjob, Option.bind_some, hrx, hout]
          rw [hseq]
          rfl
      | compose | push | markSent => cases List.mem_singleton.mp ht
      | _ => cases ht

/-- A finished transfer is one its call is about to mark as sent. -/
theorem OuterStep.finished {c : Client κ} {env : Env} {st : LocalStore} {outer : Outer π}
    {out : Local π} (h : OuterStep c env st outer out) (ht : .finished t ∈ out.notices) :
    ∃ mode, outer = .markSent mode t := by
  cases h with
  | markSent =>
      cases List.mem_singleton.mp ht
      exact ⟨_, rfl⟩
  | compose | reserve | push => cases List.mem_singleton.mp ht
  | _ => cases ht

/-- **The ranges stay free of other packets**, as long as a new range is one reserved now. -/
theorem ranges_step (h : StepCase cfg w l w') {ts ts' : Fin n → List OutboundTransfer}
    (hok : w.KeepsRanges cfg ts l) (hi : w.Ranges cfg ts)
    (hts : ∀ d, ∀ t ∈ ts' d, (∃ t₀ ∈ ts d, t.original = t₀.original) ∨ Reserves cfg w l w' d t) :
    w'.Ranges cfg ts' := by
  intro d t ht a ha hd hrange
  have hcont := continues_step h
  rcases hts d t ht with ⟨t₀, h₀, he⟩ | hres
  · have hrange₀ := hrange.congr he
    have hcarries : w'.CarriesPacket cfg d t₀ a.2 := by
      rcases accepted_step h ha with ha | ⟨hin, hacc, _⟩
      · exact (hi d t₀ h₀ a ha hd hrange₀).mono hcont
      · exact (hok.1 a hin hacc hd d t₀ h₀ hrange₀).mono hcont
    exact hcarries.congr he
  · -- the range is reserved in this step, and nothing was accepted in it
    rcases accepted_step h ha with ha | ⟨hin, _⟩
    · exact absurd hrange (hok.2 _ hres.reserving a ha hd)
    · cases hres with
      | intro => cases hin

/-- **What a call passes is delivered.** -/
theorem progress_step (h : StepCase cfg w l w') (hrelay : l.isRelay = false)
    (hcomp : Composing cfg w) (hstored : Stored cfg w) (hi : Resuming cfg w) {job' : Job π n}
    (hj : job' ∈ w'.jobs) : w'.Progress cfg job'.dev job'.task.outer := by
  have hcont := continues_step h
  rcases job_step h hj with hj | ⟨call, _, _, htask⟩ | ⟨job, hjob, _, hdev, hmove⟩
  · exact (hi.progress job' hj).mono hcont
  · rw [htask]
    cases call <;> trivial
  · rw [hdev]
    have hold := hi.progress job hjob
    generalize job'.task.outer = outer' at hmove
    cases hmove with
    | stay => exact hold.mono hcont
    | notified => trivial
    | @step env out task hrx label hstep hfresh htask effect =>
        generalize hout : job.task.outer = outer at hstep hold
        cases hstep with
        | ends | save => cases htask
        | through hlt =>
            cases htask
            intro i hle
            exact (hold.2 i (Nat.lt_of_le_of_lt hle hlt) hle).mono hcont
        | stuck => exact progress_transferOver (Or.inl htask)
        | @present mode t present i hle hthere =>
            cases htask
            refine ⟨hold.1.mono hcont, fun j hj hjle => ?_⟩
            by_cases hji : j = i
            · subst hji
              exact (hold.1 j hjle hthere).mono hcont
            · exact (hold.2 j (by omega) hjle).mono hcont
        | @push mode t present i inner req hle hinner hreq =>
            cases htask
            obtain ⟨key, _, rfl⟩ := Option.map_eq_some_iff.mp hreq
            refine ⟨hold.1.mono hcont, fun j hj hjle => (hold.2 j hj hjle).mono hcont, rfl,
              inner, ?_, moved_notices (List.mem_singleton_self _) effect⟩
            have hsub : t.headerSeq + i - t.headerSeq = i := by omega
            change t.packet (cfg.device job.dev) (t.headerSeq + i - t.headerSeq) = some inner
            rw [hsub]
            exact hinner
        | uploaded =>
            cases htask
            exact fun i hle => (hold i hle).mono hcont
        | markSent =>
            rename_i mode t
            exact progress_transferOver (t := t) (Or.inr htask)
        | journal =>
            cases htask
            exact ⟨fun i _ hcov => absurd hcov Runs.not_covers_nil, fun j hj => by omega⟩
        | resume =>
            cases htask
            exact fun i _ hcov => absurd hcov Runs.not_covers_nil
        | _ =>
            cases htask
            trivial
    | @pushed req task hrx label hreq htask effect =>
        cases hout : job.task.outer with
        | sending call tries id p =>
            rw [hout] at htask
            cases hr : pushResult (w.serve (some job.id) req).2 <;> rw [hr] at htask <;>
              cases htask
            · trivial
            · trivial
        | transferring mode t present i p =>
            rw [hout] at htask hreq hold
            cases hreq
            cases hr : pushResult (w.serve (some job.id) p.req).2 with
            | ok =>
                rw [hr] at htask
                cases htask
                -- the packet is accepted, so one more is delivered
                have hacc : (some job.id, p.req) ∈ w'.accepted := by
                  rcases serve_cases w (some job.id) p.req with ⟨_, _, _, _, hserve, _⟩ | ⟨hn, _⟩
                  · refine mem_accepted.mpr ?_
                    rw [effect, setTask_log, hserve]
                    exact List.mem_append_right _ (List.mem_singleton_self _)
                  · exact absurd (pushResult_ok hr) hn
                have hwritten := hcomp.waiting job hjob p.req (by rw [hout]; rfl)
                refine ⟨hold.1.mono hcont, fun j hj hjle => ?_⟩
                by_cases hji : j = i
                · subst hji
                  exact ⟨_, hacc, hwritten.dialogue, hold.2.2.1, hold.2.2.2.mono hcont⟩
                · exact (hold.2.1 j (by omega) hjle).mono hcont
            | conflict =>
                rw [hr] at htask
                exact progress_transferOver (Or.inl (Option.some.inj htask))
            | failed =>
                rw [hr] at htask
                exact progress_transferOver (Or.inl (Option.some.inj htask))
        | _ =>
            rw [hout] at hreq
            cases hreq
    | @timeout req retry task hreq htask =>
        generalize job.task.outer = outer at hold htask
        unfold Task.onTimeout at htask
        split at htask
        · split at htask
          · cases htask
            trivial
          · cases htask
        · split at htask
          · cases htask
            exact ⟨hold.1.mono hcont, fun j hj hjle => (hold.2.1 j hj hjle).mono hcont,
              hold.2.2.1, hold.2.2.2.mono hcont⟩
          · exact progress_transferOver (Or.inl (Option.some.inj htask))
        · cases htask
    | @existing mode t after present task answer hp hmap htask =>
        rw [hp] at htask hold
        cases answer with
        | none => exact progress_transferOver (t := t) (Or.inr (Option.some.inj htask))
        | some m =>
            have hwork : t ∈ w.working job.dev :=
              mem_working_of_job hjob (by rw [hp]; exact List.mem_cons_self)
            have hfound : w'.Found cfg job.dev t (present ++ m.runs) := by
              intro i hle hcov
              rcases Runs.covers_append.mp hcov with hcov | hcov
              · exact (hold i hle hcov).mono hcont
              · exact (found_map hstored hi.ranges hwork (hmap hrelay m rfl) i hle hcov).mono hcont
            simp only [Task.onExisting] at htask
            split at htask
            · split at htask
              · cases htask
                exact hfound
              · cases htask
                exact ⟨hfound, fun j hj => by omega⟩
            · cases htask
              exact ⟨hfound, fun j hj => by omega⟩

theorem resuming_step (h : StepCase cfg w l w') (hrelay : l.isRelay = false)
    (hok : w.KeepsRanges cfg w.working l) (hcomp : Composing cfg w) (hstored : Stored cfg w)
    (hi : Resuming cfg w) : Resuming cfg w' where
  ranges := ranges_step h hok hi.ranges
    (fun d t ht => (working_step h ht).imp_right And.left)
  progress _ hj := progress_step h hrelay hcomp hstored hi hj
  finished d t ht i hle := by
    have hcont := continues_step h
    obtain ⟨id, hlog⟩ := mem_notices.mp ht
    rcases notice_step h hlog with hold | horigin
    · exact (hi.finished d t (mem_notices.mpr ⟨id, hold⟩) i hle).mono hcont
    · cases horigin with
      | @outer job _ _ _ hjob hrx label hstep hfresh hw effect =>
          obtain ⟨mode, hout⟩ := OuterStep.finished hstep hw
          have hprogress := hi.progress job hjob
          rw [hout] at hprogress
          exact (hprogress i hle).mono hcont

theorem resuming_reachable {ok : World π n → Label π n → Prop}
    (hok : ∀ w l, ok w l → l.isRelay = false ∧ w.KeepsRanges cfg w.working l)
    (hr : Lts.Reach (step cfg) ok (init cfg) w) : Resuming cfg w :=
  hr.invariant resuming_init (fun w l _ hr hi h hs =>
    resuming_step (step_inv hs) (hok w l h).1 (hok w l h).2 (composing_reachable hr)
      (stored_reachable hr) hi)

/-- **A finished transfer is complete on the server**, in any run in which the ranges of the
transfers are left to them. -/
theorem complete_reachable
    (hr : Lts.Reach (step cfg) (fun w l => w.UndisturbedStep cfg l) (init cfg) w)
    (ht : .finished t ∈ w.notices d) : w.Complete cfg d t := by
  intro i hle
  have hcomp := composing_reachable hr
  have hresuming := resuming_reachable (fun _ _ h => ⟨h.1, h.2.2⟩) hr
  obtain ⟨a, ha, hd, hseq, inner, hp, hc⟩ := hresuming.finished d t ht i hle
  obtain ⟨key, nonce, hkey, hpayload⟩ := (hcomp.made _ _ _ _ hc).enciphered
  have hsub : a.2.seq - t.headerSeq = i := by omega
  have hlive := live_reachable (fun _ _ h => h.2.1) hr a ha
  rw [hd, hpayload, hseq] at hlive
  rw [hsub] at hp
  exact ⟨inner, key, nonce, hp, hseq ▸ hkey, hlive⟩

end Step

/-! ## A number found taken -/

/-- Alice's upload reserves `1` and `2` and is killed before it pushes anything. -/
def interrupted : List (Label Sealed 3) :=
  [.start 0 Sample.file, .scan 0, .lastSeq 0] ++ Sample.steps 0 4 ++
    [.localStep 0 (Sample.env "f1")] ++ Sample.steps 0 2 ++ [.kill 0]

/-- A resume takes the transfer up and is told what is live. -/
def resumed (job : Nat) : List (Label Sealed 3) :=
  [.start 0 .resume] ++ Sample.steps job 2 ++ [.existing job]

/-- The transfer of `interrupted`. -/
def transfer : OutboundTransfer :=
  (Sample.setup.device 0).plan (Sample.env "f1") ⟨.file, "f", "t", "p", none⟩ [1, 2, 3] 1

/-- Left alone, the resume pushes both packets. -/
theorem complete_resumed :
    (Lts.execWhile (step Sample.setup) (fun w l => w.UndisturbedStep Sample.setup l)
      (init Sample.setup) (interrupted ++ resumed 1 ++ Sample.steps 1 1 ++ [.push 1] ++
        Sample.steps 1 1 ++ [.push 1] ++ Sample.steps 1 3)).isSome = true
    ∧ Complete Sample.setup ((Lts.execWhile (step Sample.setup)
      (fun w l => w.UndisturbedStep Sample.setup l) (init Sample.setup)
      (interrupted ++ resumed 1 ++ Sample.steps 1 1 ++ [.push 1] ++ Sample.steps 1 1 ++ [.push 1] ++
        Sample.steps 1 3)).getD (init Sample.setup)) 0 transfer :=
  ⟨by decide, complete_reachable (Lts.reach_getD (by decide)) (by decide)⟩

/-- Alice's other device sends a message at `1`, and the resume takes it for the header. -/
theorem marked_over_foreign_packet :
    ¬ ∀ (w : World Sealed 3) (d : Fin 3) (t : OutboundTransfer), Lts.Reach (step Sample.setup)
      (fun _ l => l.isRelay = false ∧ l.isRemoval = false ∧ l.isRaw = false) (init Sample.setup) w →
      .finished t ∈ w.notices d → w.Complete Sample.setup d t := by
  intro h
  have hrun : (Lts.execWhile (step Sample.setup)
      (fun _ l => l.isRelay = false ∧ l.isRemoval = false ∧ l.isRaw = false) (init Sample.setup)
      (interrupted ++ Sample.sends 2 1 "m2" ++ resumed 2 ++ Sample.steps 2 2 ++ [.push 2] ++
        Sample.steps 2 3)).isSome = true := by decide
  obtain ⟨inner, key, nonce, hinner, hkey, hget⟩ :=
    h _ 0 transfer (Lts.reach_getD hrun) (by decide) 0 (Nat.zero_le _)
  -- at `1` there is the message, not the header
  have hlive : (((Lts.execWhile (step Sample.setup)
      (fun _ l => l.isRelay = false ∧ l.isRemoval = false ∧ l.isRaw = false) (init Sample.setup)
      (interrupted ++ Sample.sends 2 1 "m2" ++ resumed 2 ++ Sample.steps 2 2 ++ [.push 2] ++
        Sample.steps 2 3)).getD (init Sample.setup)).server.store.get Sample.setup.key 1).map
      (fun p => p.inner.id) = some "m2" := by decide
  rw [show transfer.headerSeq + 0 = 1 from rfl] at hget
  rw [hget] at hlive
  cases hinner
  have hid : transfer.transferId = "m2" := Option.some.inj hlive
  exact absurd hid (by decide)

end World

end Paranoia
