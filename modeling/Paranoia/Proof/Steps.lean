import Paranoia.Spec

/-!
# What a step can do

Every invariant of a run is proved by looking at each kind of step once. This
module does the looking: `OuterStep` and `PacketStep` are the inversions of the
client's local steps, and the lemmas about `World` say for each way of changing a
world what becomes of its server, its databases, its calls and its log. Later
proofs use these and do not unfold the machines again.
-/

namespace Paranoia

variable {κ π : Type} {n : Nat}

/-! ## Local steps of a call -/

/-- The databases agree except for the outgoing counter of the dialogue. -/
structure OnlyCounter (key : DialogueKey) (st st' : LocalStore) : Prop where
  messages : st'.messages = st.messages
  incomingChunks : st'.incomingChunks = st.incomingChunks
  outboundTransfers : st'.outboundTransfers = st.outboundTransfers
  cursor : st'.getLastPulledSeq key = st.getLastPulledSeq key

theorem OnlyCounter.refl (key : DialogueKey) (st : LocalStore) : OnlyCounter key st st :=
  ⟨rfl, rfl, rfl, rfl⟩

theorem onlyCounter_nextSendSeq (key : DialogueKey) (st : LocalStore) :
    OnlyCounter key st (st.nextSendSeq key).1 :=
  ⟨by simp, by simp, by simp, by simp⟩

theorem onlyCounter_reserve (key : DialogueKey) (st : LocalStore) (count : Nat) :
    OnlyCounter key st (st.reserveSendSeqRange key count).1 :=
  ⟨by simp, by simp, by simp, by simp⟩

namespace Client

/-- The plaintext `send` puts together. -/
def sendInner (c : Client κ) (env : Env) (call : SendCall) : PacketInner where
  id := env.freshId
  timestamp := call.timestamp
  sender := c.username
  content := call.content
  topicName := call.topicName

/-- The journal entry of a new upload. -/
def plan (c : Client κ) (env : Env) (call : UploadCall) (file : List UInt8) (headerSeq : Nat) :
    OutboundTransfer where
  transferId := env.freshId
  dialogue := c.key
  headerSeq := headerSeq
  chunkCount := env.chunkSizes.length
  chunkSizes := env.chunkSizes
  cachePath := call.path
  filename := call.filename
  mimeType := call.mimeType
  kind := call.kind
  totalSize := file.length
  groupId := call.groupId
  topicName := env.activeTopic
  timestamp := env.now
  attempts := 0

end Client

/-- The steps of a call outside of `receive`. -/
inductive OuterStep [Aead κ π] (c : Client κ) (env : Env) (st : LocalStore) :
    Outer π → Local π → Prop where
  /-- The call ends: an error, or nothing left to do. -/
  | ends {outer : Outer π} {st' : LocalStore} (h : OnlyCounter c.key st st') :
      OuterStep c env st outer { store := st', task := none }
  | compose {call : SendCall} {tries seq : Nat} {st' : LocalStore} {req : PushRequest π}
      (hst : OnlyCounter c.key st st')
      (hseq : st.nextSendSeq c.key = (st', .ok seq))
      (hreq : c.pushRequest env.nonce seq (c.sendInner env call) = some req) :
      OuterStep c env st (.compose call (tries + 1))
        { store := st'
          task := Task.goOn (.sending call tries env.freshId ⟨req, c.reserveUrls⟩)
          issued := [(env.freshId, seq)]
          notices := [.composed seq (c.sendInner env call) req.payload] }
  | save {call : SendCall} {id : MessageId} {seq : Nat} :
      OuterStep c env st (.save call id seq)
        { store := st.saveMessage (c.sentMessage env call id seq), task := none }
  | reserve {call : UploadCall} {file : List UInt8} {headerSeq : Nat} {st' : LocalStore}
      (hst : OnlyCounter c.key st st')
      (hfile : c.readFile call.path = some file)
      (hsizes : isChunking file.length env.chunkSizes = true)
      (hseq : st.reserveSendSeqRange c.key (1 + env.chunkSizes.length) = (st', .ok headerSeq)) :
      OuterStep c env st (.reserve call)
        { store := st'
          task := Task.goOn (.saveSending (c.plan env call file headerSeq))
          issued := [(env.freshId, headerSeq)]
          notices := [.reserved (c.plan env call file headerSeq)] }
  | saveSending {t : OutboundTransfer} :
      OuterStep c env st (.saveSending t)
        { store := st.saveMessage (t.message c), task := Task.goOn (.journal t) }
  | journal {t : OutboundTransfer} :
      OuterStep c env st (.journal t)
        { store := st.insertOutbound t, task := Task.goOn (.transfer .upload t [] 0) }
  /-- The packets of the transfer are through. -/
  | through {mode : Mode} {t : OutboundTransfer} {present : List (Nat × Nat)} {i : Nat}
      (hi : t.chunkSizes.length < i) :
      OuterStep c env st (.transfer mode t present i)
        { store := st, task := Task.goOn (.uploaded mode t) }
  /-- A packet cannot be made. -/
  | stuck {mode : Mode} {t : OutboundTransfer} {present : List (Nat × Nat)} {i : Nat} :
      OuterStep c env st (.transfer mode t present i)
        { store := st, task := Task.transferError mode t }
  /-- A packet is on the server already. -/
  | present {mode : Mode} {t : OutboundTransfer} {present : List (Nat × Nat)} {i : Nat}
      (hi : i ≤ t.chunkSizes.length) (hthere : Runs.Covers present (t.headerSeq + i)) :
      OuterStep c env st (.transfer mode t present i)
        { store := st, task := Task.goOn (.transfer mode t present (i + 1)) }
  | push {mode : Mode} {t : OutboundTransfer} {present : List (Nat × Nat)} {i : Nat}
      {inner : PacketInner} {req : PushRequest π}
      (hi : i ≤ t.chunkSizes.length) (hinner : t.packet c i = some inner)
      (hreq : c.pushRequest env.nonce (t.headerSeq + i) inner = some req) :
      OuterStep c env st (.transfer mode t present i)
        { store := st
          task := Task.goOn (.transferring mode t present i ⟨req, c.reserveUrls⟩)
          notices := [.composed (t.headerSeq + i) inner req.payload] }
  | uploaded {mode : Mode} {t : OutboundTransfer} :
      OuterStep c env st (.uploaded mode t)
        { store := st.deleteOutbound t.transferId, task := Task.goOn (.markSent mode t) }
  | markSent {mode : Mode} {t : OutboundTransfer} :
      OuterStep c env st (.markSent mode t)
        { store := st.updateStatus t.transferId .sent
          task := Task.transferOver mode
          notices := [.finished t] }
  | giveUp {pending : List OutboundTransfer} {t : OutboundTransfer} :
      OuterStep c env st (.giveUp pending t)
        { store := st.updateStatus t.transferId .failed, task := Task.goOn (.forget pending t) }
  | forget {pending : List OutboundTransfer} {t : OutboundTransfer} :
      OuterStep c env st (.forget pending t)
        { store := st.deleteOutbound t.transferId, task := Task.goOn (.pick pending) }
  | list : OuterStep c env st .list
      { store := st, task := Task.goOn (.pick (c.listOutbound st)) }
  /-- The source file of a transfer is gone. -/
  | missing {pending : List OutboundTransfer} {t : OutboundTransfer} :
      OuterStep c env st (.pick (t :: pending))
        { store := st, task := Task.goOn (.giveUp pending t) }
  | resume {pending : List OutboundTransfer} {t : OutboundTransfer} :
      OuterStep c env st (.pick (t :: pending))
        { store := (st.bumpOutboundAttempts t.transferId).1
          task := Task.goOn (.existing
            (.resume (st.bumpOutboundAttempts t.transferId).2 pending) t (t.headerSeq - 1) []) }

/-- `OuterStep` is what `outerStep` does. -/
theorem outerStep_inv [Aead κ π] {c : Client κ} {env : Env} {st : LocalStore} {outer : Outer π}
    {out : Local π} (h : Task.outerStep c env st outer = some out) :
    OuterStep c env st outer out := by
  cases outer with
  | compose call tries =>
      cases tries with
      | zero =>
          cases h
          exact .ends (.refl _ _)
      | succ tries =>
          have hst := onlyCounter_nextSendSeq c.key st
          simp only [Task.outerStep] at h
          split at h
          · rename_i st' _ hn
            rw [hn] at hst
            cases h
            exact .ends hst
          · rename_i st' seq hn
            rw [hn] at hst
            split at h
            · cases h
              exact .ends hst
            · rename_i req hreq
              cases h
              exact .compose hst hn hreq
  | save call id seq =>
      cases h
      exact .save
  | reserve call =>
      simp only [Task.outerStep] at h
      split at h
      · cases h
        exact .ends (.refl _ _)
      · rename_i file hfile
        split at h
        · cases h
        · rename_i hsizes
          split at h
          · cases h
            exact .ends (.refl _ _)
          · have hst := onlyCounter_reserve c.key st (1 + env.chunkSizes.length)
            split at h
            · rename_i st' _ hr
              rw [hr] at hst
              cases h
              exact .ends hst
            · rename_i st' headerSeq hr
              rw [hr] at hst
              cases h
              exact .reserve hst hfile (by simpa using hsizes) hr
  | saveSending t =>
      cases h
      exact .saveSending
  | journal t =>
      cases h
      exact .journal
  | transfer mode t present i =>
      simp only [Task.outerStep] at h
      split at h
      · rename_i hi
        cases h
        exact .through hi
      · rename_i hi
        split at h
        · cases h
          exact .stuck
        · rename_i inner hinner
          split at h
          · rename_i hthere
            cases h
            exact .present (by omega) hthere
          · split at h
            · cases h
              exact .stuck
            · rename_i req hreq
              cases h
              exact .push (by omega) hinner hreq
  | uploaded mode t =>
      cases h
      exact .uploaded
  | markSent mode t =>
      cases h
      exact .markSent
  | giveUp pending t =>
      cases h
      exact .giveUp
  | forget pending t =>
      cases h
      exact .forget
  | list =>
      cases h
      exact .list
  | pick pending =>
      cases pending with
      | nil =>
          cases h
          exact .ends (.refl _ _)
      | cons t pending =>
          simp only [Task.outerStep] at h
          split at h
          · cases h
            exact .missing
          · cases h
            exact .resume
  | receive | notify | sending | transferring | existing => cases h

/-- No step outside of `receive` moves the cursor. -/
theorem OuterStep.cursor [Aead κ π] {c : Client κ} {env : Env} {st : LocalStore}
    {outer : Outer π} {out : Local π} (h : OuterStep c env st outer out) :
    out.store.getLastPulledSeq c.key = st.getLastPulledSeq c.key := by
  cases h with
  | ends hst => exact hst.cursor
  | compose hst => exact hst.cursor
  | reserve hst => exact hst.cursor
  | _ => rfl

/-- Nor does one begin a `receive`. -/
theorem OuterStep.rx [Aead κ π] {c : Client κ} {env : Env} {st : LocalStore}
    {outer : Outer π} {out : Local π} (h : OuterStep c env st outer out) {task : Task π}
    (ht : out.task = some task) : task.rx = none := by
  have hover : ∀ (mode : Mode) (t : OutboundTransfer),
      (Task.transferError mode t = some task → task.rx = none)
        ∧ (Task.transferOver mode = some task → task.rx = none) := by
    intro mode t
    cases mode with
    | upload => constructor <;> (intro h; cases h)
    | resume attempts pending =>
        constructor
        · intro h
          simp only [Task.transferError] at h
          split at h <;> (cases h; rfl)
        · intro h
          cases h
          rfl
  cases h with
  | ends => cases ht
  | save => cases ht
  | stuck => exact (hover _ _).1 ht
  | markSent =>
      rename_i mode t
      exact (hover mode t).2 ht
  | _ =>
      cases ht
      rfl

/-! ## Packets of a running `receive` -/

/-- What processing one packet can do without failing. -/
inductive PacketStep [Aead κ π] (c : Client κ) (now : Int) (st : LocalStore)
    (pkt : RawPacket π) : LocalStore → (target : Nat) → (own : Option MessageId) →
      (skipUntil : Option Nat) → (counted : List Nat) → Prop where
  /-- The packet does not decrypt and is counted. -/
  | undecryptable (h : c.decryptPacket pkt.seq pkt.payload = none) :
      PacketStep c now st pkt st pkt.seq none none [pkt.seq]
  /-- An own message has arrived. -/
  | own {inner : PacketInner} {target : Nat} {skipUntil : Option Nat} {id : MessageId}
      (h : c.decryptPacket pkt.seq pkt.payload = some inner)
      (hto : Receive.advanceTo pkt.seq inner.content = some (target, skipUntil))
      (hsender : inner.sender = c.username)
      (hid : st.getMessageBySeq c.key pkt.seq = some id) :
      PacketStep c now st pkt (st.updateStatus id .delivered) target (some id) skipUntil []
  | processed {inner : PacketInner} {target : Nat} {skipUntil : Option Nat} {st' : LocalStore}
      {msg : Option Message}
      (h : c.decryptPacket pkt.seq pkt.payload = some inner)
      (hto : Receive.advanceTo pkt.seq inner.content = some (target, skipUntil))
      (hp : c.processIncoming now st inner pkt.seq = (st', .ok msg)) :
      PacketStep c now st pkt st' target none skipUntil []

theorem onPacket_inv [Aead κ π] {c : Client κ} {now : Int} {st st' : LocalStore}
    {r r' : Receive π} {pkt : RawPacket π} {queue : List (RawPacket π)} {batchEnd stop : Nat}
    {todo : List (Nat × Nat)}
    (h : Receive.onPacket c now st r pkt queue batchEnd stop todo = (st', .ok r')) :
    ∃ target own skipUntil counted messages,
      PacketStep c now st pkt st' target own skipUntil counted ∧
      r' = { r with
        messages := messages
        decryptErrors := r.decryptErrors ++ counted
        point := .advance target own (Receive.dropSkipped skipUntil queue) batchEnd stop todo } := by
  unfold Receive.onPacket at h
  split at h
  · rename_i hdec
    cases h
    exact ⟨_, _, _, _, r.messages, .undecryptable hdec, rfl⟩
  · rename_i inner hdec
    split at h
    · cases h
    · rename_i target skipUntil hto
      dsimp only at h
      split at h
      · rename_i id hown
        have hs : inner.sender = c.username := by
          by_contra hne
          simp [hne] at hown
        rw [if_pos hs] at hown
        cases h
        exact ⟨_, _, _, _, r.messages, .own hdec hto hs hown, by simp⟩
      · split at h
        · cases h
        · rename_i st₁ msg hp
          cases h
          exact ⟨_, _, _, _, r.messages ++ msg.toList, .processed hdec hto hp, by simp⟩

/-- The body skipped ends where the cursor goes. -/
theorem advanceTo_skip {seq target u : Nat} {content : MessageContent} {skipUntil : Option Nat}
    (h : Receive.advanceTo seq content = some (target, skipUntil)) (hu : skipUntil = some u) :
    u = target := by
  subst hu
  cases content with
  | fileHeader transferId kind filename mimeType totalSize chunks groupId =>
      simp only [Receive.advanceTo, Option.map_eq_some_iff, Prod.mk.injEq] at h
      obtain ⟨bodyEnd, _, rfl, hs⟩ := h
      split at hs
      · exact (Option.some.inj hs).symm
      · cases hs
  | _ => cases h

/-- The cursor goes past the packet only over a body it announces. -/
theorem advanceTo_body {seq target : Nat} {content : MessageContent} {skipUntil : Option Nat}
    (h : Receive.advanceTo seq content = some (target, skipUntil)) (hlt : seq < target) :
    skipUntil = some target := by
  cases content with
  | fileHeader transferId kind filename mimeType totalSize chunks groupId =>
      simp only [Receive.advanceTo, Option.map_eq_some_iff, Prod.mk.injEq] at h
      obtain ⟨bodyEnd, hb, rfl, rfl⟩ := h
      have := (checkedAdd_eq_some.mp hb).1
      rw [if_pos (by omega)]
  | _ =>
      cases h
      exact absurd hlt (Nat.lt_irrefl _)

theorem Client.announces_lt [Aead κ π] {c : Client κ} {pkt : RawPacket π} {s : Nat}
    (h : c.announces pkt s = true) : pkt.seq < s := by
  unfold Client.announces at h
  split at h
  · cases h
  · split at h
    · simp only [Bool.and_eq_true, decide_eq_true_eq] at h
      exact h.1
    · cases h

/-- The body a processed packet makes the cursor jump over is announced by it. -/
theorem PacketStep.announces [Aead κ π] {c : Client κ} {now : Int} {st st' : LocalStore}
    {pkt : RawPacket π} {target s : Nat} {own : Option MessageId} {skipUntil : Option Nat}
    {counted : List Nat} (h : PacketStep c now st pkt st' target own skipUntil counted)
    (hlt : pkt.seq < s) (hle : s ≤ target) : c.announces pkt s = true := by
  have hannounced : ∀ inner : PacketInner, c.decryptPacket pkt.seq pkt.payload = some inner →
      Receive.advanceTo pkt.seq inner.content = some (target, skipUntil) →
      c.announces pkt s = true := by
    intro inner hdec hto
    have hskip := advanceTo_body hto (Nat.lt_of_lt_of_le hlt hle)
    unfold Client.announces
    rw [hdec]
    dsimp only
    rw [hto, hskip]
    simp [hlt, hle]
  cases h with
  | undecryptable => omega
  | own hdec hto => exact hannounced _ hdec hto
  | processed hdec hto => exact hannounced _ hdec hto

/-! ## Moves of a running `receive` -/

/-- The moves of a running `receive` against the packets `ps` of an honest server: what becomes
of the database, of the call, and what is remembered. -/
inductive RxMove [Aead κ π] (c : Client κ) (env : Env) (ps : PacketStore π) (st : LocalStore)
    (r : Receive π) : LocalStore → Receive π → List (Notice π) → Prop where
  | scan {after : Nat} (hp : r.point = .map after) :
      RxMove c env ps st r st
        { r with
          point := .scanned (ps.mapRuns c.key after 0 mapMaxRuns).1
            (ps.mapRuns c.key after 0 mapMaxRuns).2 } []
  | lastSeq {runs : List (Nat × Nat)} {truncated : Bool} (hp : r.point = .scanned runs truncated) :
      RxMove c env ps st r st (r.onMap ⟨runs, ps.lastSeq c.key, truncated⟩) []
  | load (hp : r.point = .load) :
      RxMove c env ps st r st
        (({ r with
            allRuns := r.allRuns.insertionSort (fun a b => a.1 ≤ b.1)
            cursor := st.getLastPulledSeq c.key } : Receive π).nextRun
          (r.allRuns.insertionSort (fun a b => a.1 ≤ b.1))) []
  | pull {seq stop : Nat} {todo : List (Nat × Nat)} {packets : List (RawPacket π)}
      (hp : r.point = .pull seq stop todo)
      (h : ps.pull c.key (seq - 1) (Receive.batchEnd seq stop) = .ok packets) :
      RxMove c env ps st r st (r.onPull packets seq stop todo)
        [.pulled packets]
  | skip {batchEnd stop : Nat} {todo : List (Nat × Nat)} (hp : r.point = .skip batchEnd stop todo) :
      RxMove c env ps st r (st.setLastPulledSeq c.key batchEnd)
        (({ r with cursor := batchEnd } : Receive π).nextBatch (saturatingAdd batchEnd 1) stop todo)
        []
  | packet {pkt : RawPacket π} {queue : List (RawPacket π)} {batchEnd stop : Nat}
      {todo : List (Nat × Nat)} {st' : LocalStore} {target : Nat} {own : Option MessageId}
      {skipUntil : Option Nat} {counted : List Nat} {messages : List Message}
      (hp : r.point = .packet pkt queue batchEnd stop todo)
      (h : PacketStep c env.now st pkt st' target own skipUntil counted) :
      RxMove c env ps st r st'
        { r with
          messages := messages
          decryptErrors := r.decryptErrors ++ counted
          point := .advance target own (Receive.dropSkipped skipUntil queue) batchEnd stop todo } []
  | advance {target : Nat} {own : Option MessageId} {queue : List (RawPacket π)}
      {batchEnd stop : Nat} {todo : List (Nat × Nat)} {messages : List Message}
      (hp : r.point = .advance target own queue batchEnd stop todo) :
      RxMove c env ps st r (st.setLastPulledSeq c.key target)
        (({ r with cursor := target, messages := messages } : Receive π).nextPacket queue batchEnd
          stop todo) []
  | bump (hp : r.point = .bump) (hlt : r.cursor < r.lastSeqTotal) :
      RxMove c env ps st r (st.setLastPulledSeq c.key r.lastSeqTotal)
        { r with cursor := r.lastSeqTotal, point := .sweep } []
  | stay (hp : r.point = .bump) (hle : r.lastSeqTotal ≤ r.cursor) :
      RxMove c env ps st r st { r with point := .sweep } []
  | sweep (hp : r.point = .sweep)
      (h : (st.getDeliveredServerSeqs c.key).filter (fun s => !seqInRuns r.allRuns s) = []) :
      RxMove c env ps st r st { r with point := .done } []
  | tombstones {ts : List Nat} (hp : r.point = .sweep)
      (h : (st.getDeliveredServerSeqs c.key).filter (fun s => !seqInRuns r.allRuns s) = ts) :
      RxMove c env ps st r st { r with point := .delete ts } []
  | delete {ts : List Nat} (hp : r.point = .delete ts) :
      RxMove c env ps st r (st.deleteMessagesBySeqs c.key ts) { r with point := .done } []

/-- Does the call wait for an answer of the server? -/
def Receive.waits (r : Receive π) : Bool :=
  match r.point with
  | .map _ => true
  | .scanned _ _ => true
  | .pull _ _ _ => true
  | _ => false

/-- A local step of a running `receive` that does not fail is a move of it. -/
theorem localStep_inv [Aead κ π] {c : Client κ} {env : Env} {ps : PacketStore π}
    {st st' : LocalStore} {r r' : Receive π}
    (h : r.localStep c env.now st = some (st', .ok r')) :
    RxMove c env ps st r st' r' [] := by
  unfold Receive.localStep at h
  split at h
  · rename_i hp
    cases h
    exact .load hp
  · rename_i hp
    cases h
    exact .skip hp
  · rename_i hp
    obtain ⟨target, own, skipUntil, counted, messages, hs, rfl⟩ := onPacket_inv (Option.some.inj h)
    exact .packet hp hs
  · rename_i hp
    cases h
    exact .advance hp
  · rename_i hp
    split at h
    · rename_i hlt
      cases h
      exact .bump hp hlt
    · rename_i hlt
      cases h
      exact .stay hp (Nat.le_of_not_lt hlt)
  · rename_i hp
    split at h
    · rename_i hts
      cases h
      exact .sweep hp hts
    · cases h
      exact .tombstones hp rfl
  · rename_i hp
    cases h
    exact .delete hp
  · cases h

/-- A local step of a running `receive` that fails is stuck at a packet. -/
theorem localStep_error [Aead κ π] {c : Client κ} {now : Int} {st st' : LocalStore}
    {r : Receive π} {e : Fault} (h : r.localStep c now st = some (st', .error e)) :
    ∃ pkt queue batchEnd stop todo inner, r.point = .packet pkt queue batchEnd stop todo ∧
      c.decryptPacket pkt.seq pkt.payload = some inner ∧
      (st' = st ∨ c.processIncoming now st inner pkt.seq = (st', .error e)) := by
  unfold Receive.localStep at h
  split at h
  · cases h
  · cases h
  · rename_i pkt queue batchEnd stop todo hp
    have h' := Option.some.inj h
    unfold Receive.onPacket at h'
    split at h'
    · cases h'
    · rename_i inner hdec
      split at h'
      · cases h'
        exact ⟨_, _, _, _, _, inner, hp, hdec, Or.inl rfl⟩
      · dsimp only at h'
        split at h'
        · cases h'
        · split at h'
          · rename_i hproc
            cases h'
            exact ⟨_, _, _, _, _, inner, hp, hdec, Or.inr hproc⟩
          · cases h'
  · cases h
  · split at h <;> cases h
  · split at h <;> cases h
  · cases h
  · cases h

/-! ## Changing a world -/

namespace World

variable {w w' : World π n} {job job' : Job π n} {d : Fin n}

theorem mem_receiving {rx : Rx π} :
    rx ∈ w.receiving d ↔ ∃ job ∈ w.jobs, job.dev = d ∧ job.task.rx = some rx := by
  simp [receiving, List.mem_filterMap, List.mem_filter, Table.mem_def, and_assoc]

theorem job_mem {id : Nat} (h : w.job id = some job) : job ∈ w.jobs ∧ job.id = id := by
  obtain ⟨hm, hid⟩ := Table.find?_some h
  exact ⟨hm, by simpa using hid⟩

theorem mem_setTask {task : Option (Task π)} (h : job' ∈ (w.setTask job task).jobs) :
    (job' ∈ w.jobs ∧ job'.id ≠ job.id) ∨ ∃ t, task = some t ∧ job' = { job with task := t } := by
  cases task with
  | none =>
      obtain ⟨hm, hne⟩ := Table.mem_deleteWhere.mp h
      exact Or.inl ⟨hm, by simpa using hne⟩
  | some t =>
      rcases Table.mem_insertOrReplace.mp h with h | h
      · exact Or.inl h
      · exact Or.inr ⟨t, rfl, h⟩

variable (w job) {task : Option (Task π)}

@[simp] theorem setTask_server : (w.setTask job task).server = w.server := by
  cases task <;> rfl

@[simp] theorem setTask_store : (w.setTask job task).store = w.store := by
  cases task <;> rfl

@[simp] theorem setTask_net : (w.setTask job task).net = w.net := by
  cases task <;> rfl

@[simp] theorem setTask_issued : (w.setTask job task).issued = w.issued := by
  cases task <;> rfl

@[simp] theorem setTask_log : (w.setTask job task).log = w.log := by
  cases task <;> rfl

@[simp] theorem setTask_nextJob : (w.setTask job task).nextJob = w.nextJob := by
  cases task <;> rfl

theorem setStore_self (d : Fin n) : w.setStore d (w.store d) = w := by
  unfold setStore
  congr 1
  funext k
  split
  · rename_i h
    rw [h]
  · rfl

variable {w job}

@[simp] theorem setStore_store_self {st : LocalStore} : (w.setStore d st).store d = st := by
  simp [setStore]

theorem setStore_store_of_ne {st : LocalStore} {d' : Fin n} (h : d' ≠ d) :
    (w.setStore d st).store d' = w.store d' := by
  simp [setStore, h]

/-- The server would accept this push. -/
def Accepts (w : World π n) (req : PushRequest π) : Prop := (w.server.doPush req).2.success = true

instance (req : PushRequest π) : Decidable (w.Accepts req) :=
  inferInstanceAs (Decidable (_ = true))

/-- The world after an accepted push. -/
def accept (w : World π n) (id : Option Nat) (req : PushRequest π) : World π n :=
  { w with
    server := { w.server with store := w.server.store.put req.dialogue req.seq req.payload }
    log := w.log ++ [.accepted id req] }

/-- A served push is accepted, on a free number and under its sender's signature, or changes
nothing. -/
theorem serve_cases (w : World π n) (id : Option Nat) (req : PushRequest π) :
    (w.Accepts req ∧ req.seq < u64Size ∧ req.sig = req.sender
        ∧ w.server.store.get req.dialogue req.seq = none
        ∧ (w.serve id req).1 = w.accept id req ∧ pushResult (w.serve id req).2 = .ok)
      ∨ (¬ w.Accepts req ∧ (w.serve id req).1 = w) := by
  unfold serve Accepts
  cases hd : w.server.doPush req with
  | mk srv resp =>
      cases hs : resp.success with
      | true =>
          obtain ⟨hlt, hsig, hfree, rfl⟩ := Server.doPush_success hd hs
          refine Or.inl ⟨rfl, hlt, hsig, hfree, ?_, ?_⟩
          · simp [hs, accept]
          · simp [pushResult, unwrapPushResponse, hs]
      | false =>
          refine Or.inr ⟨by simp, ?_⟩
          rw [Server.doPush_failure hd hs]
          simp [hs]

/-- The world after a call stopped waiting for the answer to its push. -/
def delay (w : World π n) (id : Nat) (req : PushRequest π) : World π n :=
  { w with net := w.net ++ [⟨id, req⟩] }

/-! ## The steps of a dialogue -/

/-- A call goes on after a step of its own. -/
def moved (w : World π n) (job : Job π n) (st : LocalStore) (task : Option (Task π))
    (notices : List (Notice π)) : World π n :=
  ((w.setStore job.dev st).setTask job task).note job notices

/-- The steps of a dialogue, each with what it does. -/
inductive StepCase [Aead κ π] (cfg : Setup κ n) (w : World π n) :
    Label π n → World π n → Prop where
  | start {dev : Fin n} {call : Call} (hcall : call.allowed = true) :
      StepCase cfg w (.start dev call)
        { w with
          jobs := w.jobs.insertOrReplace ⟨w.nextJob, dev, firstTask w.log.length call⟩
          nextJob := w.nextJob + 1 }
  /-- A call takes a step outside of `receive`. -/
  | outer {job : Job π n} {env : Env} {out : Local π} (hjob : job ∈ w.jobs)
      (hrx : job.task.rx = none)
      (hstep : OuterStep (cfg.device job.dev) env (w.store job.dev) job.task.outer out)
      (hfresh : ∀ i ∈ out.issued, w.isFresh i.1 = true) :
      StepCase cfg w (.localStep job.id env)
        ((w.moved job out.store out.task out.notices).issue job.dev out.issued)
  /-- A running `receive` moves, by itself or because the server answered. -/
  | run {job : Job π n} {rx : Rx π} {l : Label π n} {st : LocalStore} {run : Receive π}
      {notices : List (Notice π)} (env : Env) (hjob : job ∈ w.jobs)
      (hrx : job.task.rx = some rx)
      (hmove : RxMove (cfg.device job.dev) env w.server.store (w.store job.dev) rx.run st run
        notices)
      (hlabel : rx.run.waits = true ∨ ∃ env, l = .localStep job.id env) :
      StepCase cfg w l
        (w.moved job st (some { job.task with rx := some { rx with run := run } }) notices)
  | finish {job : Job π n} {env : Env} {rx : Rx π} {task : Option (Task π)} (hjob : job ∈ w.jobs)
      (hrx : job.task.rx = some rx) (hdone : rx.run.point = .done)
      (htask : ∀ t, task = some t → t = ⟨none, job.task.outer⟩ ∧ job.task.outer ≠ .receive) :
      StepCase cfg w (.localStep job.id env)
        (w.moved job (w.store job.dev) task [.received rx.since rx.run.decryptErrors])
  /-- A packet makes a running `receive` fail. -/
  | fails {job : Job π n} {env : Env} {rx : Rx π} {pkt : RawPacket π}
      {queue : List (RawPacket π)} {batchEnd stop : Nat} {todo : List (Nat × Nat)}
      {inner : PacketInner} {st : LocalStore} {e : Fault} (hjob : job ∈ w.jobs)
      (hrx : job.task.rx = some rx) (hp : rx.run.point = .packet pkt queue batchEnd stop todo)
      (hdec : (cfg.device job.dev).decryptPacket pkt.seq pkt.payload = some inner)
      (hst : st = w.store job.dev ∨ (cfg.device job.dev).processIncoming env.now
        (w.store job.dev) inner pkt.seq = (st, .error e)) :
      StepCase cfg w (.localStep job.id env) (w.moved job st none [])
  | relayMap {job : Job π n} {rx : Rx π} {m : MapResult} {after : Nat} (hjob : job ∈ w.jobs)
      (hrx : job.task.rx = some rx) (hp : rx.run.point = .map after) :
      StepCase cfg w (.relayMap job.id m)
        (w.moved job (w.store job.dev)
          (some { job.task with rx := some { rx with run := rx.run.onMap m } }) [])
  | relayPull {job : Job π n} {rx : Rx π} {packets : List (RawPacket π)} {seq stop : Nat}
      {todo : List (Nat × Nat)} (hjob : job ∈ w.jobs) (hrx : job.task.rx = some rx)
      (hp : rx.run.point = .pull seq stop todo) :
      StepCase cfg w (.relayPull job.id packets)
        (w.moved job (w.store job.dev)
          (some { job.task with
            rx := some { rx with run := rx.run.onPull packets seq stop todo } })
          [.pulled packets])
  | notified {job : Job π n} {fresh : Bool} {call : SendCall} (hjob : job ∈ w.jobs)
      (hrx : job.task.rx = none) (hp : job.task.outer = .notify call) :
      StepCase cfg w (.notified job.id fresh)
        (w.setTask job (some
          { rx := if fresh then some (Rx.mk w.log.length Receive.start) else none
            outer := .compose call 3 }))
  /-- A map page of a resumed transfer's range is served, or a relay makes one up. -/
  | existing {job : Job π n} {mode : Mode} {t : OutboundTransfer} {after : Nat}
      {present : List (Nat × Nat)} {task : Option (Task π)} {l : Label π n}
      (answer : Option MapResult) (hjob : job ∈ w.jobs) (hrx : job.task.rx = none)
      (hp : job.task.outer = .existing mode t after present)
      (hmap : l.isRelay = false → ∀ m, answer = some m →
        w.server.store.map (cfg.device job.dev).key after (t.headerSeq + t.chunkCount) mapMaxRuns
          = .ok m)
      (htask : Task.onExisting job.task.outer answer = some task) :
      StepCase cfg w l (w.setTask job task)
  | push {job : Job π n} {req : PushRequest π} {task : Option (Task π)} (hjob : job ∈ w.jobs)
      (hrx : job.task.rx = none) (hreq : Task.request job.task.outer = some req)
      (htask : Task.onPushResult (w.serve (some job.id) req).1.log.length job.task.outer
        (pushResult (w.serve (some job.id) req).2) = some task) :
      StepCase cfg w (.push job.id) ((w.serve (some job.id) req).1.setTask job task)
  | timeout {job : Job π n} {retry : Bool} {req : PushRequest π} {task : Option (Task π)}
      (hjob : job ∈ w.jobs) (hrx : job.task.rx = none)
      (hreq : Task.request job.task.outer = some req)
      (htask : Task.onTimeout retry job.task.outer = some task) :
      StepCase cfg w (.timeout job.id retry)
        ((w.delay job.id req).setTask job task)
  | timeoutExisting {job : Job π n} {retry : Bool} {mode : Mode} {t : OutboundTransfer}
      {after : Nat} {present : List (Nat × Nat)} (hjob : job ∈ w.jobs)
      (hrx : job.task.rx = none) (hp : job.task.outer = .existing mode t after present) :
      StepCase cfg w (.timeout job.id retry) (w.setTask job (Task.transferOver mode))
  | arrive {i : Nat} {flight : Flight π} (hnet : w.net[i]? = some flight) :
      StepCase cfg w (.arrive i)
        ({ w with net := w.net.eraseIdx i }.serve (some flight.job) flight.req).1
  | raw {req : PushRequest π} : StepCase cfg w (.raw req) (w.serve none req).1
  | kill {job : Job π n} (hjob : job ∈ w.jobs) : StepCase cfg w (.kill job.id) (w.setTask job none)
  | remove {fromSeq toSeq : Nat} {store : PacketStore π}
      (h : w.server.store.removeRange cfg.key fromSeq toSeq = .ok store) :
      StepCase cfg w (.remove fromSeq toSeq)
        { w with server := { w.server with store := store } }

theorem onRx_inv {id : Nat} {f : Job π n → Receive π → Option (Receive π × List (Notice π))}
    (h : w.onRx id f = some w') :
    ∃ job rx run notices, job ∈ w.jobs ∧ job.id = id ∧ job.task.rx = some rx
      ∧ f job rx.run = some (run, notices)
      ∧ w' = w.moved job (w.store job.dev)
          (some { job.task with rx := some { rx with run := run } }) notices := by
  unfold onRx at h
  split at h
  · cases h
  · rename_i job hjob
    obtain ⟨hm, hid⟩ := job_mem hjob
    split at h
    · cases h
    · rename_i rx hrx
      split at h
      · cases h
      · rename_i run notices hf
        refine ⟨job, rx, run, notices, hm, hid, hrx, hf, ?_⟩
        rw [moved, setStore_self]
        exact (Option.some.inj h).symm

theorem onOuter_inv {id : Nat} {f : Job π n → Outer π → Option (Option (Task π))}
    (h : w.onOuter id f = some w') :
    ∃ job task, job ∈ w.jobs ∧ job.id = id ∧ w.job id = some job ∧ job.task.rx = none
      ∧ f job job.task.outer = some task ∧ w' = w.setTask job task := by
  unfold onOuter at h
  split at h
  · cases h
  · rename_i job hjob
    obtain ⟨hm, hid⟩ := job_mem hjob
    split at h
    · cases h
    · rename_i hrx
      split at h
      · cases h
      · rename_i task hf
        exact ⟨job, task, hm, hid, hjob, hrx, hf, (Option.some.inj h).symm⟩

end World

/-- Both participants of a setup name the same dialogue. -/
theorem Setup.dialogue_eq (cfg : Setup κ n) (d : Fin n) (a b : Nat) :
    (World.rangeRequest (cfg.device d) a b).dialogue = cfg.key := by
  have hk := cfg.shared d
  have hlt := cfg.ordered
  have hne : ¬ cfg.key.b < cfg.key.a := String.lt_asymm hlt
  unfold RangeRequest.dialogue World.rangeRequest Client.partner DialogueKey.new
  rw [hk]
  rcases cfg.member d with h | h <;> simp only [h]
  · simp [hlt]
  · by_cases hab : cfg.key.a = cfg.key.b
    · exact absurd (hab ▸ hlt) (String.lt_irrefl _)
    · simp [hab, hne]

namespace World

variable {cfg : Setup κ n} {w w' : World π n}

/-- Where the server reads for a device is the dialogue of the setup. -/
theorem doPull_eq_ok {d : Fin n} {a b : Nat} {packets : List (RawPacket π)}
    (h : w.server.doPull (rangeRequest (cfg.device d) a b) = .ok packets) :
    w.server.store.pull (cfg.device d).key a b = .ok packets := by
  unfold Server.doPull at h
  split at h
  · cases h
  · split at h
    · cases h
    · rwa [cfg.dialogue_eq, ← cfg.shared d] at h

theorem doMap_eq_ok {d : Fin n} {a b : Nat} {m : MapResult}
    (h : w.server.doMap (rangeRequest (cfg.device d) a b) = .ok m) :
    w.server.store.map (cfg.device d).key a b mapMaxRuns = .ok m := by
  unfold Server.doMap at h
  split at h
  · cases h
  · split at h
    · cases h
    · rwa [cfg.dialogue_eq, ← cfg.shared d] at h

variable [Aead κ π]

theorem stepLocal_inv {id : Nat} {env : Env} (h : w.stepLocal cfg id env = some w') :
    StepCase cfg w (.localStep id env) w' := by
  unfold stepLocal at h
  split at h
  · cases h
  · rename_i job hjob
    obtain ⟨hm, rfl⟩ := job_mem hjob
    split at h
    · cases h
    · rename_i out hout
      split at h
      · rename_i hfresh
        have hfresh' : ∀ i ∈ out.issued, w.isFresh i.1 = true := List.all_eq_true.mp hfresh
        cases h
        unfold Task.localStep at hout
        split at hout
        · rename_i rx hrx
          unfold Task.receiveStep at hout
          split at hout
          · rename_i hdone
            cases hout
            rw [issue, List.map_nil, List.append_nil]
            refine .finish hm hrx hdone (fun t ht => ?_)
            split at ht
            · cases ht
            · rename_i hne
              cases ht
              exact ⟨rfl, hne⟩
          · split at hout
            · cases hout
            · rename_i st e hr
              cases hout
              rw [issue, List.map_nil, List.append_nil]
              obtain ⟨pkt, queue, be, stop, todo, inner, hp, hdec, hst⟩ := localStep_error hr
              exact .fails hm hrx hp hdec hst
            · rename_i st run hr
              cases hout
              rw [issue, List.map_nil, List.append_nil]
              exact .run env hm hrx (localStep_inv hr) (Or.inr ⟨env, rfl⟩)
        · rename_i hrx
          exact .outer hm hrx (outerStep_inv hout) hfresh'
      · cases h

/-- **Every step of a dialogue is one of the listed cases.** -/
theorem step_inv {l : Label π n} (h : step cfg w l = some w') : StepCase cfg w l w' := by
  cases l with
  | start dev call =>
      simp only [step] at h
      split at h
      · rename_i hcall
        cases h
        exact .start hcall
      · cases h
  | localStep id env => exact stepLocal_inv h
  | notified id fresh =>
      simp only [step] at h
      obtain ⟨job, task, hm, rfl, _, hrx, hf, rfl⟩ := onOuter_inv h
      split at hf
      · rename_i call hp
        cases hf
        exact .notified hm hrx hp
      · cases hf
  | scan id =>
      simp only [step, stepScan] at h
      obtain ⟨job, rx, run, notices, hm, rfl, hrx, hf, rfl⟩ := onRx_inv h
      split at hf
      · rename_i after hp
        split at hf
        · cases hf
        · rw [cfg.dialogue_eq, ← cfg.shared job.dev] at hf
          cases hf
          exact .run default hm hrx (.scan hp) (Or.inl (by rw [Receive.waits, hp]))
      · cases hf
  | lastSeq id =>
      simp only [step, stepLastSeq] at h
      obtain ⟨job, rx, run, notices, hm, rfl, hrx, hf, rfl⟩ := onRx_inv h
      split at hf
      · rename_i runs truncated hp
        rw [cfg.dialogue_eq, ← cfg.shared job.dev] at hf
        cases hf
        exact .run default hm hrx (.lastSeq hp) (Or.inl (by rw [Receive.waits, hp]))
      · cases hf
  | pull id =>
      simp only [step, stepPull] at h
      obtain ⟨job, rx, run, notices, hm, rfl, hrx, hf, rfl⟩ := onRx_inv h
      split at hf
      · rename_i seq stop todo hp
        split at hf
        · cases hf
        · rename_i packets hpull
          cases hf
          exact .run default hm hrx (.pull hp (doPull_eq_ok hpull))
            (Or.inl (by rw [Receive.waits, hp]))
      · cases hf
  | existing id =>
      simp only [step, stepExisting] at h
      obtain ⟨job, task, hm, rfl, _, hrx, hf, rfl⟩ := onOuter_inv h
      split at hf
      · rename_i mode t after present hp
        split at hf
        · exact .existing none hm hrx hp (fun _ m hm => by cases hm) (hp ▸ hf)
        · rename_i m hmap
          refine .existing (some m) hm hrx hp (fun _ m' hm' => ?_) (hp ▸ hf)
          cases hm'
          exact doMap_eq_ok hmap
      · cases hf
  | push id =>
      simp only [step, stepPush] at h
      split at h
      · cases h
      · rename_i job hjob
        split at h
        · rename_i req hrx hreq
          obtain ⟨hm, rfl⟩ := job_mem hjob
          obtain ⟨job', task, _, _, hj', _, hf, rfl⟩ := onOuter_inv h
          have hj : w.job job.id = some job' := hj'
          obtain rfl : job' = job := Option.some.inj (hj.symm.trans hjob)
          exact .push hm hrx hreq hf
        · cases h
  | timeout id retry =>
      simp only [step, stepTimeout] at h
      split at h
      · cases h
      · rename_i job hjob
        obtain ⟨hm, rfl⟩ := job_mem hjob
        split at h
        · rename_i req hreq
          obtain ⟨job', task, _, _, hj', hrx, hf, rfl⟩ := onOuter_inv h
          have hj : w.job job.id = some job' := hj'
          obtain rfl : job' = job := Option.some.inj (hj.symm.trans hjob)
          exact .timeout hm hrx hreq hf
        · obtain ⟨job', task, _, _, hj', hrx, hf, rfl⟩ := onOuter_inv h
          obtain rfl : job' = job := Option.some.inj (hj'.symm.trans hjob)
          cases ho : job'.task.outer with
          | existing mode t after present =>
              rw [ho] at hf
              cases hf
              exact .timeoutExisting hm hrx ho
          | _ =>
              rw [ho] at hf
              cases hf
  | arrive i =>
      simp only [step] at h
      split at h
      · cases h
      · rename_i flight hnet
        cases h
        exact .arrive hnet
  | raw req =>
      cases h
      exact .raw
  | relayMap id m =>
      simp only [step] at h
      obtain ⟨job, rx, run, notices, hm, rfl, hrx, hf, rfl⟩ := onRx_inv h
      split at hf
      · rename_i after hp
        cases hf
        exact .relayMap hm hrx hp
      · cases hf
  | relayPull id packets =>
      simp only [step] at h
      obtain ⟨job, rx, run, notices, hm, rfl, hrx, hf, rfl⟩ := onRx_inv h
      split at hf
      · rename_i seq stop todo hp
        cases hf
        exact .relayPull hm hrx hp
      · cases hf
  | relayExisting id m =>
      simp only [step] at h
      obtain ⟨job, task, hm, rfl, _, hrx, hf, rfl⟩ := onOuter_inv h
      cases ho : job.task.outer with
      | existing mode t after present =>
          exact .existing (some m) hm hrx ho (fun hr => by cases hr) hf
      | _ =>
          rw [ho] at hf
          cases hf
  | kill id =>
      simp only [step] at h
      split at h
      · cases h
      · rename_i job hjob
        obtain ⟨hm, rfl⟩ := job_mem hjob
        cases h
        exact .kill hm
  | remove fromSeq toSeq =>
      simp only [step] at h
      split at h
      · cases h
      · rename_i store hst
        cases h
        exact .remove hst

end World

end Paranoia
