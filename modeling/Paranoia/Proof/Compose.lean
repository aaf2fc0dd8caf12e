import Paranoia.Proof.Calls

/-!
# What the clients compose

Every packet a call pushes was put together by a device under its own account's
name, sealed with its key for that number, and belongs either to a message whose
id was drawn for that number or to a transfer whose range was reserved.
`Composing` says so of everything a run has produced: the journal, the calls, the
requests under way and the history. It holds in every run whatever the server
answers, since nothing a client composes is taken from an answer.
-/

namespace Paranoia

variable {κ π : Type} {n : Nat}

/-- The journal entry as it was first written. -/
def OutboundTransfer.original (t : OutboundTransfer) : OutboundTransfer := { t with attempts := 0 }

theorem bumpOutboundAttempts_mem {st : LocalStore} {transferId : String} {t : OutboundTransfer}
    (h : t ∈ (st.bumpOutboundAttempts transferId).1.outboundTransfers) :
    ∃ t₀ ∈ st.outboundTransfers, t.original = t₀.original := by
  have h' : t ∈ st.outboundTransfers.updateWhere (fun t => t.transferId = transferId)
      (fun t => { t with attempts := t.attempts + 1 }) (fun _ => rfl) := h
  obtain ⟨t₀, h₀, rfl⟩ := Table.mem_updateWhere.mp h'
  refine ⟨t₀, h₀, ?_⟩
  split <;> rfl

/-! ## One step of a call -/

section OuterStep

variable [Aead κ π] {c : Client κ} {env : Env} {st : LocalStore} {outer : Outer π} {out : Local π}

/-- The journal holds entries it held before, and what the call works on. -/
theorem OuterStep.mem_journal (h : OuterStep c env st outer out) {t : OutboundTransfer}
    (ht : t ∈ out.store.outboundTransfers) :
    (∃ t₀ ∈ st.outboundTransfers, t.original = t₀.original) ∨ t ∈ outer.transfers := by
  cases h with
  | ends hst => exact Or.inl ⟨t, hst.outboundTransfers ▸ ht, rfl⟩
  | compose hst => exact Or.inl ⟨t, hst.outboundTransfers ▸ ht, rfl⟩
  | reserve hst => exact Or.inl ⟨t, hst.outboundTransfers ▸ ht, rfl⟩
  | journal =>
      rcases Table.mem_insertOrReplace.mp ht with ⟨h, _⟩ | rfl
      · exact Or.inl ⟨t, h, rfl⟩
      · exact Or.inr List.mem_cons_self
  | uploaded => exact Or.inl ⟨t, (Table.mem_deleteWhere.mp ht).1, rfl⟩
  | forget => exact Or.inl ⟨t, (Table.mem_deleteWhere.mp ht).1, rfl⟩
  | resume => exact Or.inl (bumpOutboundAttempts_mem ht)
  | _ => exact Or.inl ⟨t, ht, rfl⟩

/-- A call works on what it worked on, on the journal, or on a transfer it just reserved. -/
theorem OuterStep.transfers (h : OuterStep c env st outer out) {task : Task π}
    (htask : out.task = some task) {t : OutboundTransfer} (ht : t ∈ task.outer.transfers) :
    t ∈ outer.transfers ∨ t ∈ st.outboundTransfers
      ∨ (.reserved t ∈ out.notices ∧ t.original = t) := by
  cases h with
  | ends => cases htask
  | compose =>
      cases htask
      cases ht
  | save => cases htask
  | reserve =>
      cases htask
      cases List.mem_singleton.mp ht
      exact Or.inr (Or.inr ⟨List.mem_singleton_self _, rfl⟩)
  | stuck => exact Or.inl (transferError_transfers htask ht)
  | markSent => exact Or.inl (List.mem_cons_of_mem _ (transferOver_transfers htask ht))
  | forget =>
      cases htask
      exact Or.inl (List.mem_cons_of_mem _ ht)
  | list =>
      cases htask
      have ht' := (List.mem_insertionSort _).mp ht
      exact Or.inr (Or.inl (List.mem_filter.mp ht').1)
  | _ =>
      cases htask
      exact Or.inl (by simpa [Outer.transfers, Mode.pending] using ht)

theorem OuterStep.send? (h : OuterStep c env st outer out) {task : Task π}
    (htask : out.task = some task) {call : SendCall} (hcall : task.outer.send? = some call) :
    outer.send? = some call := by
  cases h with
  | ends | save => cases htask
  | compose =>
      cases htask
      exact hcall
  | stuck =>
      rename_i mode t present i
      cases mode with
      | upload => cases htask
      | resume attempts pending =>
          simp only [Task.transferError] at htask
          split at htask <;> (cases htask; cases hcall)
  | markSent =>
      rename_i mode t
      cases mode with
      | upload => cases htask
      | resume attempts pending =>
          cases htask
          cases hcall
  | _ =>
      cases htask
      cases hcall

/-- A packet that is composed is one of `send` or of the transfer at hand. -/
theorem OuterStep.composed (h : OuterStep c env st outer out) {seq : Nat} {inner : PacketInner}
    {payload : π} (hc : .composed seq inner payload ∈ out.notices) :
    inner.sender = c.username
      ∧ (∃ key nonce, keyForSeq c.keyring seq = some key ∧ payload = Aead.encrypt key nonce inner)
      ∧ ((∃ call, outer.send? = some call ∧ inner.content = call.content
            ∧ (inner.id, seq) ∈ out.issued)
          ∨ ∃ t i, t ∈ outer.transfers ∧ i ≤ t.chunkSizes.length ∧ t.packet c i = some inner
            ∧ seq = t.headerSeq + i) := by
  cases h with
  | compose hst hseq hreq =>
      cases List.mem_singleton.mp hc
      obtain ⟨key, hkey, rfl⟩ := Option.map_eq_some_iff.mp hreq
      exact ⟨rfl, ⟨key, env.nonce, hkey, rfl⟩,
        Or.inl ⟨_, rfl, rfl, List.mem_singleton_self _⟩⟩
  | @push mode t present i inner' req hi hinner hreq =>
      cases List.mem_singleton.mp hc
      obtain ⟨key, hkey, rfl⟩ := Option.map_eq_some_iff.mp hreq
      have hsender : inner.sender = c.username := by
        cases i with
        | zero =>
            cases hinner
            rfl
        | succ i =>
            simp only [OutboundTransfer.packet, Option.bind_eq_some_iff, Option.map_eq_some_iff]
              at hinner
            obtain ⟨_, _, _, _, rfl⟩ := hinner
            rfl
      exact ⟨hsender, ⟨key, env.nonce, hkey, rfl⟩,
        Or.inr ⟨t, i, List.mem_cons_self, hi, hinner, rfl⟩⟩
  | reserve => cases List.mem_singleton.mp hc
  | markSent => cases List.mem_singleton.mp hc
  | _ => cases hc

/-- A transfer that is reserved is a new one over a range of its own. -/
theorem OuterStep.reserved (h : OuterStep c env st outer out) {t : OutboundTransfer}
    (ht : .reserved t ∈ out.notices) :
    (t.transferId, t.headerSeq) ∈ out.issued ∧ t.dialogue = c.key
      ∧ t.chunkCount = t.chunkSizes.length ∧ t.headerSeq + (1 + t.chunkSizes.length) < u64Size
      ∧ (∃ file, c.readFile t.cachePath = some file ∧ isChunking file.length t.chunkSizes = true)
      ∧ t.original = t := by
  cases h with
  | reserve hst hfile hsizes hseq =>
      cases List.mem_singleton.mp ht
      exact ⟨List.mem_singleton_self _, rfl, rfl, LocalStore.reserveSendSeqRange_bound hseq,
        ⟨_, hfile, hsizes⟩, rfl⟩
  | compose => cases List.mem_singleton.mp ht
  | push => cases List.mem_singleton.mp ht
  | markSent => cases List.mem_singleton.mp ht
  | _ => cases ht

/-- A call that waits for the answer to a push has just composed its packet. -/
theorem OuterStep.request (h : OuterStep c env st outer out) {task : Task π}
    (htask : out.task = some task) {req : PushRequest π}
    (hreq : Task.request task.outer = some req) :
    req.sender = c.username ∧ req.recver = c.partner ∧ req.sig = c.username
      ∧ ∃ inner, .composed req.seq inner req.payload ∈ out.notices := by
  cases h with
  | compose hst hseq hpush =>
      cases htask
      cases hreq
      obtain ⟨key, hkey, rfl⟩ := Option.map_eq_some_iff.mp hpush
      exact ⟨rfl, rfl, rfl, _, List.mem_singleton_self _⟩
  | push hi hinner hpush =>
      cases htask
      cases hreq
      obtain ⟨key, hkey, rfl⟩ := Option.map_eq_some_iff.mp hpush
      exact ⟨rfl, rfl, rfl, _, List.mem_singleton_self _⟩
  | ends | save => cases htask
  | stuck =>
      rename_i mode t present i
      cases mode with
      | upload => cases htask
      | resume attempts pending =>
          simp only [Task.transferError] at htask
          split at htask <;> (cases htask; cases hreq)
  | markSent =>
      rename_i mode t
      cases mode with
      | upload => cases htask
      | resume attempts pending =>
          cases htask
          cases hreq
  | _ =>
      cases htask
      cases hreq

end OuterStep

/-! ## Answers -/

section Answers

variable {outer : Outer π} {task : Task π} {req : PushRequest π} {call : SendCall}

/-- What a call becomes when a transfer failed or is over waits for no push and sends nothing. -/
theorem transferError_idle {mode : Mode} {t : OutboundTransfer}
    (h : Task.transferError mode t = some task ∨ Task.transferOver mode = some task) :
    Task.request task.outer = none ∧ task.outer.send? = none := by
  cases mode with
  | upload => rcases h with h | h <;> cases h
  | resume attempts pending =>
      rcases h with h | h
      · simp only [Task.transferError] at h
        split at h <;> (cases h; exact ⟨rfl, rfl⟩)
      · cases h
        exact ⟨rfl, rfl⟩

theorem onPushResult_idle {since : Nat} {result : PushResult}
    (h : Task.onPushResult since outer result = some (some task)) :
    Task.request task.outer = none
      ∧ ∀ call, task.outer.send? = some call → outer.send? = some call := by
  cases outer with
  | sending call tries id p =>
      cases result <;> cases h
      · exact ⟨rfl, fun _ h => h⟩
      · exact ⟨rfl, fun _ h => h⟩
  | transferring mode t present i p =>
      have hidle : Task.transferError mode t = some task →
          Task.request task.outer = none ∧ ∀ call, task.outer.send? = some call →
            (Outer.transferring mode t present i p).send? = some call := by
        intro h
        obtain ⟨h1, h2⟩ := transferError_idle (t := t) (Or.inl h)
        exact ⟨h1, fun call hs => by rw [h2] at hs; cases hs⟩
      cases result with
      | ok =>
          cases h
          exact ⟨rfl, fun _ h => by cases h⟩
      | conflict => exact hidle (Option.some.inj h)
      | failed => exact hidle (Option.some.inj h)
  | _ => cases h

theorem onTimeout_request {retry : Bool} (h : Task.onTimeout retry outer = some (some task))
    (hreq : Task.request task.outer = some req) : Task.request outer = some req := by
  unfold Task.onTimeout at h
  split at h
  · split at h
    · cases h
      exact hreq
    · cases h
  · split at h
    · cases h
      exact hreq
    · rw [(transferError_idle (Or.inl (Option.some.inj h))).1] at hreq
      cases hreq
  · cases h

theorem onTimeout_send {retry : Bool} (h : Task.onTimeout retry outer = some (some task))
    (hs : task.outer.send? = some call) : outer.send? = some call := by
  unfold Task.onTimeout at h
  split at h
  · split at h
    · cases h
      exact hs
    · cases h
  · split at h
    · cases h
      cases hs
    · rw [(transferError_idle (Or.inl (Option.some.inj h))).2] at hs
      cases hs
  · cases h

theorem onExisting_idle {answer : Option MapResult}
    (h : Task.onExisting outer answer = some (some task)) :
    Task.request task.outer = none ∧ task.outer.send? = none := by
  unfold Task.onExisting at h
  split at h
  · rename_i mode t _ _
    exact transferError_idle (t := t) (Or.inr (Option.some.inj h))
  · dsimp only at h
    split at h
    · split at h <;> (cases h; exact ⟨rfl, rfl⟩)
    · cases h
      exact ⟨rfl, rfl⟩
  · cases h

end Answers

namespace World

section Defs

variable [Aead κ π] (cfg : Setup κ n) (w : World π n)

/-- The transfers in the journal of a device, or in the hands of one of its calls. -/
def working (d : Fin n) : List OutboundTransfer :=
  (w.store d).outboundTransfers.rows
    ++ (w.jobs.rows.filter (fun job => job.dev = d)).flatMap (fun job => job.task.outer.transfers)

/-- The transfer was reserved on this device. -/
def Known (d : Fin n) (t : OutboundTransfer) : Prop := .reserved t.original ∈ w.notices d

/-- A reserved transfer has an id of its own, a range of `u64`s and a file cut into its chunks. -/
structure Planned (d : Fin n) (t : OutboundTransfer) : Prop where
  issued : ⟨t.transferId, t.headerSeq, d⟩ ∈ w.issued
  dialogue : t.dialogue = cfg.key
  chunkCount : t.chunkCount = t.chunkSizes.length
  bound : t.headerSeq + (1 + t.chunkSizes.length) < u64Size
  file : ∃ file, (cfg.device d).readFile t.cachePath = some file
    ∧ isChunking file.length t.chunkSizes = true
  original : t.original = t

/-- Where the plaintext comes from: a message of `send`, or packet `i` of a transfer. -/
inductive Source (d : Fin n) (seq : Nat) (inner : PacketInner) : Prop where
  | send (hcontent : inner.content.isSendable = true) (hissued : ⟨inner.id, seq, d⟩ ∈ w.issued)
  | transfer {t : OutboundTransfer} {i : Nat} (hreserved : .reserved t ∈ w.notices d)
      (hi : i ≤ t.chunkSizes.length) (hpacket : t.packet (cfg.device d) i = some inner)
      (hseq : seq = t.headerSeq + i)

/-- A packet composed by a device. -/
structure Made (d : Fin n) (seq : Nat) (inner : PacketInner) (payload : π) : Prop where
  sender : inner.sender = (cfg.device d).username
  enciphered : ∃ key nonce, keyForSeq (cfg.device d).keyring seq = some key
    ∧ payload = Aead.encrypt key nonce inner
  source : w.Source cfg d seq inner

/-- A push of a packet the device composed, under its account's name and signature. -/
structure Written (d : Fin n) (req : PushRequest π) : Prop where
  sender : req.sender = (cfg.device d).username
  recver : req.recver = (cfg.device d).partner
  sig : req.sig = (cfg.device d).username
  composed : ∃ inner, .composed req.seq inner req.payload ∈ w.notices d

/-- The push of a message under way: its packet carries the message's id and content. -/
def Carries (d : Fin n) (call : SendCall) (id : MessageId) (req : PushRequest π) : Prop :=
  ∃ inner, .composed req.seq inner req.payload ∈ w.notices d ∧ inner.id = id
    ∧ inner.content = call.content

/-- Everything the clients of a run produced has its origin. -/
structure Composing : Prop where
  unique : (w.issued.map Issued.id).Nodup
  working : ∀ d, ∀ t ∈ w.working d, w.Known d t
  sends : ∀ job ∈ w.jobs, ∀ call, job.task.outer.send? = some call →
    call.content.isSendable = true
  planned : ∀ d t, .reserved t ∈ w.notices d → w.Planned cfg d t
  made : ∀ d seq inner payload, .composed seq inner payload ∈ w.notices d →
    w.Made cfg d seq inner payload
  waiting : ∀ job ∈ w.jobs, ∀ req, Task.request job.task.outer = some req →
    w.Written cfg job.dev req
  delayed : ∀ flight ∈ w.net, ∃ d, w.Written cfg d flight.req
  accepted : ∀ id req, (some id, req) ∈ w.accepted → ∃ d, w.Written cfg d req
  sending : ∀ job ∈ w.jobs, ∀ call tries id p, job.task.outer = .sending call tries id p →
    w.Carries job.dev call id p.req
  saved : ∀ job ∈ w.jobs, ∀ call id seq, job.task.outer = .save call id seq →
    ∃ req, (some job.id, req) ∈ w.accepted ∧ req.seq = seq ∧ w.Written cfg job.dev req
      ∧ w.Carries job.dev call id req

end Defs

variable {cfg : Setup κ n} {w w' : World π n} {l : Label π n} {d : Fin n}

theorem Known.mono (hc : Continues w w') {t : OutboundTransfer} (h : w.Known d t) :
    w'.Known d t :=
  hc.notices h

theorem Planned.mono (hi : ∀ i ∈ w.issued, i ∈ w'.issued) {t : OutboundTransfer}
    (h : w.Planned cfg d t) : w'.Planned cfg d t :=
  { h with issued := hi _ h.issued }

theorem Written.mono (hc : Continues w w') {req : PushRequest π} (h : w.Written cfg d req) :
    w'.Written cfg d req :=
  { h with
    composed := by
      obtain ⟨inner, hcomp⟩ := h.composed
      exact ⟨inner, hc.notices hcomp⟩ }

theorem Written.dialogue {req : PushRequest π} (h : w.Written cfg d req) :
    req.dialogue = cfg.key := by
  unfold PushRequest.dialogue
  rw [h.sender, h.recver]
  exact cfg.dialogue_eq d 0 0

theorem Carries.mono (hc : Continues w w') {call : SendCall} {id : MessageId}
    {req : PushRequest π} (h : w.Carries d call id req) : w'.Carries d call id req := by
  obtain ⟨inner, hcomp, h⟩ := h
  exact ⟨inner, hc.notices hcomp, h⟩

variable [Aead κ π]

theorem Made.mono (hc : Continues w w') (hi : ∀ i ∈ w.issued, i ∈ w'.issued) {seq : Nat}
    {inner : PacketInner} {payload : π} (h : w.Made cfg d seq inner payload) :
    w'.Made cfg d seq inner payload :=
  { h with
    source := by
      cases h.source with
      | send hcontent hissued => exact .send hcontent (hi _ hissued)
      | transfer hres hle hpacket hseq => exact .transfer (hc.notices hres) hle hpacket hseq }

/-! ## Steps -/

/-- At most one id is drawn in a step, and it is new. -/
theorem issued_step (h : StepCase cfg w l w') :
    w'.issued = w.issued ∨ ∃ i : Issued n, w.isFresh i.id = true ∧ w'.issued = w.issued ++ [i] := by
  have hserve : ∀ (w₁ : World π n) (id : Option Nat) (req : PushRequest π),
      (w₁.serve id req).1.issued = w₁.issued := fun _ _ _ => rfl
  cases h with
  | @outer job env out _ _ hstep hfresh =>
      have he : ((w.moved job out.store out.task out.notices).issue job.dev out.issued).issued
          = w.issued ++ out.issued.map (fun i => ⟨i.1, i.2, job.dev⟩) := by
        simp [moved, note, setStore, issue]
      rw [he]
      have hshape : out.issued = [] ∨ ∃ i, out.issued = [i] := by
        generalize job.task.outer = outer at hstep
        cases hstep <;> simp
      rcases hshape with hnil | ⟨i, hone⟩
      · exact Or.inl (by simp [hnil])
      · refine Or.inr ⟨⟨i.1, i.2, job.dev⟩, hfresh i (by simp [hone]), by simp [hone]⟩
  | push => exact Or.inl (by rw [setTask_issued, hserve])
  | arrive => exact Or.inl (hserve _ _ _)
  | raw => exact Or.inl (hserve _ _ _)
  | run | finish | fails | relayMap | relayPull =>
      exact Or.inl (by simp [moved, note, setStore])
  | timeout => exact Or.inl (by simp [delay])
  | notified | existing | timeoutExisting | kill => exact Or.inl (by simp)
  | start | remove => exact Or.inl rfl

theorem mem_issued_step (h : StepCase cfg w l w') {i : Issued n} (hi : i ∈ w.issued) :
    i ∈ w'.issued := by
  rcases issued_step h with he | ⟨j, _, he⟩
  · rwa [he]
  · rw [he]
    exact List.mem_append_left _ hi

theorem unique_step (h : StepCase cfg w l w') (hu : (w.issued.map Issued.id).Nodup) :
    (w'.issued.map Issued.id).Nodup := by
  rcases issued_step h with he | ⟨i, hfresh, he⟩
  · rwa [he]
  · rw [he, List.map_append, List.nodup_append]
    refine ⟨hu, List.nodup_singleton _, ?_⟩
    intro a ha b hb
    obtain ⟨j, hj, rfl⟩ := List.mem_map.mp ha
    rw [List.map_singleton, List.mem_singleton] at hb
    subst hb
    exact of_decide_eq_true (List.all_eq_true.mp hfresh j hj)

/-- A request whose sender no longer waits was one a call waited for. -/
theorem net_step (h : StepCase cfg w l w') {f : Flight π} (hf : f ∈ w'.net) :
    f ∈ w.net ∨ ∃ job ∈ w.jobs, job.id = f.job ∧ Task.request job.task.outer = some f.req := by
  have hserve : ∀ (w₁ : World π n) (id : Option Nat) (req : PushRequest π),
      (w₁.serve id req).1.net = w₁.net := fun _ _ _ => rfl
  cases h with
  | @timeout job _ req _ hjob _ hreq _ =>
      rw [setTask_net] at hf
      rcases List.mem_append.mp hf with hf | hf
      · exact Or.inl hf
      · cases List.mem_singleton.mp hf
        exact Or.inr ⟨job, hjob, rfl, hreq⟩
  | push => exact Or.inl (by rwa [setTask_net, hserve] at hf)
  | arrive =>
      rw [hserve] at hf
      exact Or.inl (List.mem_of_mem_eraseIdx hf)
  | raw => exact Or.inl hf
  | outer | run | finish | fails | relayMap | relayPull =>
      exact Or.inl (by simpa [moved, note, setStore, issue] using hf)
  | notified | existing | timeoutExisting | kill => exact Or.inl (by simpa using hf)
  | start | remove => exact Or.inl hf

theorem composing_init : Composing cfg (init cfg : World π n) where
  unique := List.nodup_nil
  working _ _ h := absurd h List.not_mem_nil
  sends _ h := absurd h List.not_mem_nil
  planned _ _ h := absurd h List.not_mem_nil
  made _ _ _ _ h := absurd h List.not_mem_nil
  waiting _ h := absurd h List.not_mem_nil
  delayed _ h := absurd h List.not_mem_nil
  accepted _ _ h := absurd h List.not_mem_nil
  sending _ h := absurd h List.not_mem_nil
  saved _ h := absurd h List.not_mem_nil

theorem step_log {job : Job π n} {out : Local π}
    (effect : w' = (w.moved job out.store out.task out.notices).issue job.dev out.issued) :
    w'.log = w.log ++ out.notices.map (.notice job.dev job.id) := by
  rw [effect]
  exact moved_log

/-- Notices and ids that a step of a call adds are in the world after it. -/
theorem moved_notices {job : Job π n} {out : Local π} {what : Notice π}
    (hw : what ∈ out.notices)
    (effect : w' = (w.moved job out.store out.task out.notices).issue job.dev out.issued) :
    what ∈ w'.notices job.dev := by
  refine mem_notices.mpr ⟨job.id, ?_⟩
  rw [step_log effect]
  exact List.mem_append_right _ (List.mem_map_of_mem hw)

theorem moved_issued {job : Job π n} {out : Local π} {i : String × Nat} (hi : i ∈ out.issued)
    (effect : w' = (w.moved job out.store out.task out.notices).issue job.dev out.issued) :
    ⟨i.1, i.2, job.dev⟩ ∈ w'.issued := by
  subst effect
  exact List.mem_append_right _ (List.mem_map_of_mem (f := fun i => Issued.mk i.1 i.2 job.dev) hi)

theorem Known.congr {t t' : OutboundTransfer} (h : t.original = t'.original)
    (ht : w.Known d t') : w.Known d t := by
  unfold Known at ht ⊢
  rwa [h]

theorem mem_working {t : OutboundTransfer} : t ∈ w.working d ↔
    t ∈ (w.store d).outboundTransfers
      ∨ ∃ job ∈ w.jobs, job.dev = d ∧ t ∈ job.task.outer.transfers := by
  simp only [working, List.mem_append, List.mem_flatMap, List.mem_filter, decide_eq_true_eq,
    Table.mem_def, and_assoc]

theorem mem_working_of_job {job : Job π n} (hjob : job ∈ w.jobs) {t : OutboundTransfer}
    (ht : t ∈ job.task.outer.transfers) : t ∈ w.working job.dev :=
  mem_working.mpr (Or.inr ⟨job, hjob, rfl, ht⟩)

/-- A device reserves this transfer in this step. -/
inductive Reserves (cfg : Setup κ n) (w : World π n) : Label π n → World π n → Fin n →
    OutboundTransfer → Prop where
  | intro {job : Job π n} {env : Env} {out : Local π} {t : OutboundTransfer} (hjob : job ∈ w.jobs)
      (hrx : job.task.rx = none)
      (hstep : OuterStep (cfg.device job.dev) env (w.store job.dev) job.task.outer out)
      (hwhat : .reserved t ∈ out.notices) :
      Reserves cfg w (.localStep job.id env)
        ((w.moved job out.store out.task out.notices).issue job.dev out.issued) job.dev t

theorem Reserves.mem {t : OutboundTransfer} (h : Reserves cfg w l w' d t) :
    .reserved t ∈ w'.notices d := by
  cases h with
  | intro _ _ _ hwhat => exact moved_notices hwhat rfl

/-- **A transfer a device works on is one it worked on before, or one it reserves now.** -/
theorem working_step (h : StepCase cfg w l w') {t : OutboundTransfer} (hwork : t ∈ w'.working d) :
    (∃ t₀ ∈ w.working d, t.original = t₀.original)
      ∨ (Reserves cfg w l w' d t ∧ t.original = t) := by
  rcases mem_working.mp hwork with ht | ⟨job', hj, rfl, ht⟩
  · have hold : (w'.store d).outboundTransfers = (w.store d).outboundTransfers →
        ∃ t₀ ∈ w.working d, t.original = t₀.original :=
      fun he => ⟨t, mem_working.mpr (Or.inl (he ▸ ht)), rfl⟩
    cases store_step h d with
    | same hst => exact Or.inl (hold (by rw [hst]))
    | @outer job env out hjob hdev hrx label hstep hfresh hst effect =>
        subst hdev
        rw [hst] at ht
        rcases hstep.mem_journal ht with ⟨t₀, h₀, he⟩ | ht
        · exact Or.inl ⟨t₀, mem_working.mpr (Or.inl h₀), he⟩
        · exact Or.inl ⟨t, mem_working_of_job hjob ht, rfl⟩
    | move hrx hmove =>
        obtain ⟨_, _, _, hmv, _⟩ := hmove.move
        exact Or.inl (hold hmv.outboundTransfers)
    | @fails _ pkt env inner _ _ _ _ hproc =>
        refine Or.inl (hold ?_)
        rw [← processIncoming_outboundTransfers (cfg.device d) env.now (w.store d) inner pkt.seq,
          hproc]
  · rcases job_step h hj with hj | ⟨call, _, _, htask⟩ | ⟨job, hjob, _, hdev, hmove⟩
    · exact Or.inl ⟨t, mem_working_of_job hj ht, rfl⟩
    · rw [htask] at ht
      cases call <;> cases ht
    · rw [hdev]
      have hold : t ∈ job.task.outer.transfers → ∃ t₀ ∈ w.working job.dev, t.original = t₀.original :=
        fun ht => ⟨t, mem_working_of_job hjob ht, rfl⟩
      generalize job'.task.outer = outer' at ht hmove
      cases hmove with
      | stay => exact Or.inl (hold ht)
      | step hrx label hstep hfresh htask effect =>
          rcases hstep.transfers htask ht with ht | ht | ⟨hres, horig⟩
          · exact Or.inl (hold ht)
          · exact Or.inl ⟨t, mem_working.mpr (Or.inl ht), rfl⟩
          · subst label effect
            exact Or.inr ⟨.intro hjob hrx hstep hres, horig⟩
      | notified => cases ht
      | pushed _ _ _ htask => exact Or.inl (hold (onPushResult_transfers htask ht))
      | timeout _ htask => exact Or.inl (hold (onTimeout_transfers htask ht))
      | existing answer hp hmap htask => exact Or.inl (hold (onExisting_transfers htask ht))

theorem known_step (h : StepCase cfg w l w') (hi : Composing cfg w) {t : OutboundTransfer}
    (ht : t ∈ w'.working d) : w'.Known d t := by
  rcases working_step h ht with ⟨t₀, h₀, he⟩ | ⟨hres, horig⟩
  · exact ((hi.working d t₀ h₀).congr he).mono (continues_step h)
  · unfold Known
    rw [horig]
    exact hres.mem

theorem sends_step (h : StepCase cfg w l w') (hi : Composing cfg w) {job' : Job π n}
    (hj : job' ∈ w'.jobs) {call : SendCall} (hs : job'.task.outer.send? = some call) :
    call.content.isSendable = true := by
  rcases job_step h hj with hj | ⟨call', hallowed, _, htask⟩ | ⟨job, hjob, _, _, hmove⟩
  · exact hi.sends job' hj call hs
  · rw [htask] at hs
    cases call' with
    | send call' =>
        cases hs
        exact hallowed
    | _ => cases hs
  · have hold : job.task.outer.send? = some call → call.content.isSendable = true :=
      hi.sends job hjob call
    generalize job'.task.outer = outer' at hs hmove
    cases hmove with
    | stay => exact hold hs
    | step hrx label hstep hfresh htask effect => exact hold (hstep.send? htask hs)
    | notified hp =>
        rw [hp] at hold
        exact hold hs
    | pushed _ _ _ htask => exact hold ((onPushResult_idle htask).2 call hs)
    | timeout _ htask => exact hold (onTimeout_send htask hs)
    | existing answer hp hmap htask =>
        rw [(onExisting_idle htask).2] at hs
        cases hs

theorem waiting_step (h : StepCase cfg w l w') (hi : Composing cfg w) {job' : Job π n}
    (hj : job' ∈ w'.jobs) {req : PushRequest π}
    (hreq : Task.request job'.task.outer = some req) : w'.Written cfg job'.dev req := by
  have hcont := continues_step h
  rcases job_step h hj with hj | ⟨call, _, _, htask⟩ | ⟨job, hjob, _, hdev, hmove⟩
  · exact (hi.waiting job' hj req hreq).mono hcont
  · rw [htask] at hreq
    cases call <;> cases hreq
  · rw [hdev]
    have hold : Task.request job.task.outer = some req → w'.Written cfg job.dev req :=
      fun hr => (hi.waiting job hjob req hr).mono hcont
    generalize job'.task.outer = outer' at hreq hmove
    cases hmove with
    | stay => exact hold hreq
    | step hrx label hstep hfresh htask effect =>
        obtain ⟨h1, h2, h3, inner, hc⟩ := hstep.request htask hreq
        exact ⟨h1, h2, h3, inner, moved_notices hc effect⟩
    | notified => cases hreq
    | pushed _ _ _ htask =>
        rw [(onPushResult_idle htask).1] at hreq
        cases hreq
    | timeout _ htask => exact hold (onTimeout_request htask hreq)
    | existing answer hp hmap htask =>
        rw [(onExisting_idle htask).1] at hreq
        cases hreq

/-- A push by a call is one a device wrote. -/
theorem incoming_written (hi : Composing cfg w) {id : Nat} {req : PushRequest π}
    (hin : w.incoming l = some (some id, req)) : ∃ d, w.Written cfg d req := by
  cases l with
  | push id' =>
      obtain ⟨job, hjob, h⟩ := Option.bind_eq_some_iff.mp hin
      obtain ⟨req', hreq, he⟩ := Option.map_eq_some_iff.mp h
      cases he
      exact ⟨job.dev, hi.waiting job (job_mem hjob).1 _ hreq⟩
  | arrive i =>
      obtain ⟨flight, hf, he⟩ := Option.map_eq_some_iff.mp hin
      cases he
      exact hi.delayed flight (List.mem_of_getElem? hf)
  | _ => cases hin

theorem OuterStep.sending {c : Client κ} {env : Env} {st : LocalStore} {outer : Outer π}
    {out : Local π} (h : OuterStep c env st outer out) {task : Task π}
    (htask : out.task = some task) {call : SendCall} {tries : Nat} {id : MessageId}
    {p : Pushing π} (hs : task.outer = .sending call tries id p) :
    ∃ inner, .composed p.req.seq inner p.req.payload ∈ out.notices ∧ inner.id = id
      ∧ inner.content = call.content := by
  cases h with
  | compose hst hseq hreq =>
      cases htask
      cases hs
      obtain ⟨key, hkey, rfl⟩ := Option.map_eq_some_iff.mp hreq
      exact ⟨_, List.mem_singleton_self _, rfl, rfl⟩
  | ends | save => cases htask
  | stuck =>
      have hidle := transferError_idle (Or.inl htask)
      rw [hs] at hidle
      cases hidle.2
  | markSent =>
      rename_i mode t
      have hidle := transferError_idle (t := t) (Or.inr htask)
      rw [hs] at hidle
      cases hidle.2
  | _ =>
      cases htask
      cases hs

/-- No step of its own makes a call save a message as sent. -/
theorem OuterStep.not_save {c : Client κ} {env : Env} {st : LocalStore} {outer : Outer π}
    {out : Local π} (h : OuterStep c env st outer out) {task : Task π}
    (htask : out.task = some task) {call : SendCall} {id : MessageId} {seq : Nat} :
    task.outer ≠ .save call id seq := by
  intro hs
  cases h with
  | ends | save => cases htask
  | stuck =>
      have hidle := transferError_idle (Or.inl htask)
      rw [hs] at hidle
      cases hidle.2
  | markSent =>
      rename_i mode t
      have hidle := transferError_idle (t := t) (Or.inr htask)
      rw [hs] at hidle
      cases hidle.2
  | _ =>
      cases htask
      cases hs

theorem onTimeout_sending {outer : Outer π} {task : Task π} {retry : Bool}
    (h : Task.onTimeout retry outer = some (some task)) {call : SendCall} {tries : Nat}
    {id : MessageId} {p : Pushing π} (hs : task.outer = .sending call tries id p) :
    ∃ p', outer = .sending call tries id p' ∧ p'.req = p.req := by
  unfold Task.onTimeout at h
  split at h
  · split at h
    · cases h
      cases hs
      exact ⟨_, rfl, rfl⟩
    · cases h
  · split at h
    · cases h
      cases hs
    · have hidle := transferError_idle (Or.inl (Option.some.inj h))
      rw [hs] at hidle
      cases hidle.2
  · cases h

theorem onTimeout_save {outer : Outer π} {task : Task π} {retry : Bool}
    (h : Task.onTimeout retry outer = some (some task)) {call : SendCall} {id : MessageId}
    {seq : Nat} : task.outer ≠ .save call id seq := by
  intro hs
  unfold Task.onTimeout at h
  split at h
  · split at h
    · cases h
      cases hs
    · cases h
  · split at h
    · cases h
      cases hs
    · have hidle := transferError_idle (Or.inl (Option.some.inj h))
      rw [hs] at hidle
      cases hidle.2
  · cases h

theorem sending_step (h : StepCase cfg w l w') (hi : Composing cfg w) {job' : Job π n}
    (hj : job' ∈ w'.jobs) {call : SendCall} {tries : Nat} {id : MessageId} {p : Pushing π}
    (hs : job'.task.outer = .sending call tries id p) : w'.Carries job'.dev call id p.req := by
  have hcont := continues_step h
  rcases job_step h hj with hj | ⟨call', _, _, htask⟩ | ⟨job, hjob, _, hdev, hmove⟩
  · exact (hi.sending job' hj _ _ _ _ hs).mono hcont
  · rw [htask] at hs
    cases call' <;> cases hs
  · rw [hdev]
    generalize job'.task.outer = outer' at hs hmove
    cases hmove with
    | stay => exact (hi.sending job hjob _ _ _ _ hs).mono hcont
    | step hrx label hstep hfresh htask effect =>
        obtain ⟨inner, hc, h⟩ := OuterStep.sending hstep htask hs
        exact ⟨inner, moved_notices hc effect, h⟩
    | notified => cases hs
    | pushed _ _ _ htask =>
        have hidle := (onPushResult_idle htask).1
        rw [hs] at hidle
        cases hidle
    | timeout _ htask =>
        obtain ⟨p', hp', hreq⟩ := onTimeout_sending htask hs
        rw [← hreq]
        exact (hi.sending job hjob _ _ _ _ hp').mono hcont
    | existing answer hp hmap htask =>
        have hidle := (onExisting_idle htask).1
        rw [hs] at hidle
        cases hidle

theorem pushResult_ok {resp : ApiResponse} (h : pushResult resp = .ok) : resp.success = true := by
  unfold pushResult at h
  split at h
  · rename_i hu
    unfold unwrapPushResponse at hu
    split at hu
    · assumption
    · dsimp only at hu
      split at hu
      · cases hu
      · split at hu <;> cases hu
  · split at h <;> cases h

theorem saved_step (h : StepCase cfg w l w') (hi : Composing cfg w) {job' : Job π n}
    (hj : job' ∈ w'.jobs) {call : SendCall} {id : MessageId} {seq : Nat}
    (hs : job'.task.outer = .save call id seq) :
    ∃ req, (some job'.id, req) ∈ w'.accepted ∧ req.seq = seq ∧ w'.Written cfg job'.dev req
      ∧ w'.Carries job'.dev call id req := by
  have hcont := continues_step h
  have hold : ∀ job ∈ w.jobs, job.task.outer = .save call id seq →
      ∃ req, (some job.id, req) ∈ w'.accepted ∧ req.seq = seq ∧ w'.Written cfg job.dev req
        ∧ w'.Carries job.dev call id req := by
    intro job hjob hs
    obtain ⟨req, h1, h2, h3, h4⟩ := hi.saved job hjob _ _ _ hs
    exact ⟨req, hcont.accepted h1, h2, h3.mono hcont, h4.mono hcont⟩
  rcases job_step h hj with hj | ⟨call', _, _, htask⟩ | ⟨job, hjob, hid, hdev, hmove⟩
  · exact hold job' hj hs
  · rw [htask] at hs
    cases call' <;> cases hs
  · rw [hid, hdev]
    generalize job'.task.outer = outer' at hs hmove
    cases hmove with
    | stay => exact hold job hjob hs
    | step hrx label hstep hfresh htask effect => exact absurd hs (OuterStep.not_save hstep htask)
    | notified => cases hs
    | @pushed req task hrx label hreq htask effect =>
        cases ho : job.task.outer with
        | sending call' tries id' p =>
            rw [ho] at htask hreq
            cases hreq
            simp only [Task.onPushResult] at htask
            split at htask
            · rename_i hok
              cases htask
              cases hs
              have hacc : (w.server.doPush p.req).2.success = true := pushResult_ok hok
              refine ⟨p.req, ?_, rfl, (hi.waiting job hjob _ (by rw [ho]; rfl)).mono hcont,
                (hi.sending job hjob _ _ _ _ ho).mono hcont⟩
              rcases serve_cases w (some job.id) p.req with ⟨_, _, _, _, hserve, _⟩ | ⟨hn, _⟩
              · refine mem_accepted.mpr ?_
                rw [effect, setTask_log, hserve]
                exact List.mem_append_right _ (List.mem_singleton_self _)
              · exact absurd hacc hn
            · cases htask
              cases hs
            · cases htask
        | transferring mode t present i p =>
            rw [ho] at htask
            simp only [Task.onPushResult] at htask
            split at htask
            · cases htask
              cases hs
            · have hidle := transferError_idle (Or.inl (Option.some.inj htask))
              rw [hs] at hidle
              cases hidle.2
        | _ =>
            rw [ho] at htask
            cases htask
    | timeout _ htask => exact absurd hs (onTimeout_save htask)
    | existing answer hp hmap htask =>
        have hidle := (onExisting_idle htask).2
        rw [hs] at hidle
        cases hidle

/-- **Every step keeps the origins.** -/
theorem composing_step (h : StepCase cfg w l w') (hi : Composing cfg w) : Composing cfg w' := by
  have hcont := continues_step h
  have hissued : ∀ i ∈ w.issued, i ∈ w'.issued := fun i hm => mem_issued_step h hm
  refine ⟨unique_step h hi.unique, fun d t ht => known_step h hi ht,
    fun job hj call hs => sends_step h hi hj hs, ?_, ?_, fun job hj req => waiting_step h hi hj, ?_, ?_,
    fun job hj call tries id p hs => sending_step h hi hj hs,
    fun job hj call id seq hs => saved_step h hi hj hs⟩
  · intro d t ht
    obtain ⟨id, hlog⟩ := mem_notices.mp ht
    rcases notice_step h hlog with hlog | horigin
    · exact (hi.planned d t (mem_notices.mpr ⟨id, hlog⟩)).mono hissued
    · cases horigin with
      | outer hjob hrx label hstep hfresh hw effect =>
          obtain ⟨h1, h2, h3, h4, h5, h6⟩ := hstep.reserved hw
          exact ⟨moved_issued h1 effect, h2.trans (cfg.shared _), h3, h4, h5, h6⟩
  · intro d seq inner payload hc
    obtain ⟨id, hlog⟩ := mem_notices.mp hc
    rcases notice_step h hlog with hlog | horigin
    · exact (hi.made d seq inner payload (mem_notices.mpr ⟨id, hlog⟩)).mono hcont hissued
    · cases horigin with
      | @outer job _ out _ hjob hrx label hstep hfresh hw effect =>
          obtain ⟨h1, h2, hsource⟩ := hstep.composed hw
          refine ⟨h1, h2, ?_⟩
          rcases hsource with ⟨call, hcall, hcontent, hiss⟩ | ⟨t, i, ht, hle, hp, hseq⟩
          · refine .send ?_ (moved_issued hiss effect)
            rw [hcontent]
            exact hi.sends job hjob call hcall
          · refine .transfer ((hi.working _ t (mem_working_of_job hjob ht)).mono hcont) hle ?_ hseq
            rw [← hp]
            cases i <;> rfl
  · intro f hf
    rcases net_step h hf with hf | ⟨job, hjob, _, hreq⟩
    · obtain ⟨d, hw⟩ := hi.delayed f hf
      exact ⟨d, hw.mono hcont⟩
    · exact ⟨job.dev, (hi.waiting job hjob _ hreq).mono hcont⟩
  · intro id req ha
    rcases accepted_step h ha with ha | ⟨hin, _⟩
    · obtain ⟨d, hw⟩ := hi.accepted id req ha
      exact ⟨d, hw.mono hcont⟩
    · obtain ⟨d, hw⟩ := incoming_written hi hin
      exact ⟨d, hw.mono hcont⟩

theorem composing_reachable {ok : World π n → Label π n → Prop}
    (hr : Lts.Reach (step cfg) ok (init cfg) w) : Composing cfg w :=
  hr.invariant composing_init (fun _ _ _ _ hi _ hs => composing_step (step_inv hs) hi)

/-! ## Opening what was composed -/

/-- A composed packet opens to what was composed. -/
theorem opens (hi : Composing cfg w) {d' : Fin n} {s seq : Nat} {inner inner' : PacketInner}
    {payload : π} (hc : .composed s inner payload ∈ w.notices d')
    (hdec : (cfg.device d).decryptPacket seq payload = some inner') : inner' = inner := by
  obtain ⟨key, nonce, _, rfl⟩ := (hi.made _ _ _ _ hc).enciphered
  obtain ⟨key', _, hopen⟩ := Option.bind_eq_some_iff.mp hdec
  exact Aead.decrypt_sound key key' nonce inner inner' hopen

/-- A packet the device composed itself is one it can open. -/
theorem opens_own (hi : Composing cfg w) {seq : Nat} {inner : PacketInner} {payload : π}
    (hc : .composed seq inner payload ∈ w.notices d) :
    (cfg.device d).decryptPacket seq payload = some inner := by
  obtain ⟨key, nonce, hkey, rfl⟩ := (hi.made _ _ _ _ hc).enciphered
  unfold Client.decryptPacket
  rw [hkey]
  exact Aead.decrypt_encrypt key nonce inner

end World

end Paranoia
