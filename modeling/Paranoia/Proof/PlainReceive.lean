import Paranoia.Client.PlainReceive
import Paranoia.Proof.Poison
import Paranoia.Proof.Running

/-!
# A `receive` is a plain pass

Pages, runs, batches and jumps only say in which pieces the live packets come. Before each packet the
pass and the call agree on the next one: the first live packet above the cursor. `Receive.paged` is a
`receive` on a server that stands still, for any size of the batches and of the pages.
-/

namespace Paranoia

variable {κ π : Type} [Aead κ π] {c : Client κ} {now : Int} {ps : PacketStore π}
  {st st' : LocalStore} {r : Receive π} {p p' : PassState} {pkt : RawPacket π}

/-! ## The pass -/

namespace Client

/-- Packets up to the cursor are left out. -/
theorem passPackets_of_le {l l' : List (RawPacket π)} (h : ∀ x ∈ l, x.seq ≤ p.cursor) :
    c.passPackets now st p (l ++ l') = c.passPackets now st p l' := by
  induction l with
  | nil => rfl
  | cons x l ih =>
      rw [List.cons_append, passPackets, if_pos (h x List.mem_cons_self)]
      exact ih (fun y hy => h y (List.mem_cons_of_mem x hy))

theorem passPackets_end {l : List (RawPacket π)} (h : ∀ x ∈ l, x.seq ≤ p.cursor) :
    c.passPackets now st p l = (st, .ok p) := by
  have hall := @passPackets_of_le κ π _ c now st p l [] h
  rw [List.append_nil] at hall
  rw [hall, passPackets]

omit [Aead κ π] in
theorem le_of_advanceTo {seq target : Nat} {content : MessageContent} {skipUntil : Option Nat}
    (h : Receive.advanceTo seq content = some (target, skipUntil)) : seq ≤ target := by
  cases content with
  | fileHeader =>
      simp only [Receive.advanceTo, Option.map_eq_some_iff, Prod.mk.injEq] at h
      obtain ⟨bodyEnd, hadd, rfl, -⟩ := h
      have := (checkedAdd_eq_some.mp hadd).1
      omega
  | _ =>
      cases h
      exact Nat.le_refl _

/-- The cursor goes over the packet. -/
theorem passPacket_cursor (h : c.passPacket now st p pkt = (st', .ok p')) : pkt.seq ≤ p'.cursor := by
  unfold passPacket at h
  split at h
  · cases h
    exact Nat.le_refl _
  · split at h
    · cases h
    · rename_i target skipUntil hto
      have hle := le_of_advanceTo hto
      split at h
      · cases h
        exact hle
      · split at h
        · cases h
        · cases h
          exact hle

/-- **The pass goes on with the first packet above the cursor.** -/
theorem passPackets_next {l : List (RawPacket π)} (hsorted : l.Pairwise (fun a b => a.seq < b.seq))
    (hmem : pkt ∈ l) (hlt : p.cursor < pkt.seq)
    (hleast : ∀ x ∈ l, p.cursor < x.seq → pkt.seq ≤ x.seq) :
    c.passPackets now st p l = match c.passPacket now st p pkt with
      | (st', .error e) => (st', .error e)
      | (st', .ok p') => c.passPackets now st' p' l := by
  obtain ⟨before, after, rfl⟩ := List.append_of_mem hmem
  have hbefore : ∀ x ∈ before, x.seq < pkt.seq := fun x hx =>
    (List.pairwise_append.mp hsorted).2.2 x hx pkt List.mem_cons_self
  rw [passPackets_of_le (fun x hx => ?_), passPackets, if_neg (Nat.not_le.mpr hlt)]
  · generalize hpass : c.passPacket now st p pkt = res
    obtain ⟨st', e | p'⟩ := res
    · rfl
    · -- what was left out is still left out
      have hcursor := passPacket_cursor hpass
      dsimp only
      rw [passPackets_of_le (fun x hx => (hbefore x hx).le.trans hcursor), passPackets,
        if_pos hcursor]
  · by_contra hle
    have := hbefore x hx
    have := hleast x (List.mem_append_left _ hx) (Nat.lt_of_not_le hle)
    omega

/-- The end of the pass. -/
def finish (c : Client κ) (ps : PacketStore π) :
    LocalStore × Except Fault PassState → LocalStore × Except Fault PassState
  | (st, .error e) => (st, .error e)
  | (st, .ok p) => ((c.passEnd ps st p).1, .ok (c.passEnd ps st p).2)

theorem plainReceive_eq (c : Client κ) (now : Int) (ps : PacketStore π) (st : LocalStore) :
    c.plainReceive now ps st = c.finish ps
      (c.passPackets now st ⟨st.getLastPulledSeq c.key, [], []⟩ (ps.packets c.key)) := by
  unfold plainReceive
  split <;> rename_i heq <;> rw [heq] <;> rfl

end Client

/-! ## Batches and pages of any size -/

namespace Receive

/-- A batch arrives that was to end there. -/
def onBatch (r : Receive π) (packets : List (RawPacket π)) (batchEnd stop : Nat)
    (todo : List (Nat × Nat)) : Receive π :=
  match packets.insertionSort (fun a b => a.seq ≤ b.seq) with
  | [] => { r with point := .skip batchEnd stop todo }
  | pkt :: queue => { r with point := .packet pkt queue batchEnd stop todo }

/-- One step of a `receive` that asks for batches and pages of these sizes, answered by a server that
holds these packets. -/
def paged (batch maxRuns : Nat) (c : Client κ) (now : Int) (ps : PacketStore π) :
    LocalStore × Except Fault (Receive π) → Option (LocalStore × Except Fault (Receive π))
  | (_, .error _) => none
  | (st, .ok r) =>
      match r.point with
      | .map after =>
          let scan := ps.mapRuns c.key after 0 maxRuns
          some (st, .ok { r with point := .scanned scan.1 scan.2 })
      | .scanned runs truncated =>
          some (st, .ok (r.onMap ⟨runs, ps.lastSeq c.key, truncated⟩))
      | .pull seq stop todo =>
          let batchEnd := min (saturatingAdd seq (batch - 1)) stop
          match ps.pull c.key (seq - 1) batchEnd with
          | .error msg => some (st, .error (.transport msg))
          | .ok packets => some (st, .ok (r.onBatch packets batchEnd stop todo))
      | _ => r.localStep c now st

/-- The sizes of the code. -/
theorem paged_eq_alone (c : Client κ) (now : Int) (ps : PacketStore π) :
    paged receivePullBatch mapMaxRuns c now ps = alone c now ps := by
  funext s
  obtain ⟨st, _ | r⟩ := s <;> rfl

variable {batch maxRuns batchEnd stop : Nat} {todo : List (Nat × Nat)} {queue : List (RawPacket π)}

theorem paged_local {res : LocalStore × Except Fault (Receive π)}
    (h : r.localStep c now st = some res) : paged batch maxRuns c now ps (st, .ok r) = some res := by
  unfold paged
  dsimp only
  split
  · rename_i hp
    unfold localStep at h
    rw [hp] at h
    cases h
  · rename_i hp
    unfold localStep at h
    rw [hp] at h
    cases h
  · rename_i hp
    unfold localStep at h
    rw [hp] at h
    cases h
  · exact h

/-! ## One packet -/

omit [Aead κ π] in
theorem dropWhile_of_lt {n : Nat} (h : ∀ x ∈ queue, n < x.seq) :
    queue.dropWhile (fun x => decide (x.seq ≤ n)) = queue := by
  cases queue with
  | nil => rfl
  | cons x queue =>
      refine List.dropWhile_cons_of_neg ?_
      have := h x List.mem_cons_self
      simp only [decide_eq_true_eq]
      omega

omit [Aead κ π] in
/-- The body that is passed over is what the cursor has gone over. -/
theorem dropSkipped_eq {target : Nat} {content : MessageContent} {skipUntil : Option Nat}
    (h : advanceTo pkt.seq content = some (target, skipUntil)) (hlt : ∀ x ∈ queue, pkt.seq < x.seq) :
    dropSkipped skipUntil queue = queue.dropWhile (fun x => decide (x.seq ≤ target)) := by
  cases content with
  | fileHeader transferId kind filename mimeType totalSize chunks groupId =>
      simp only [advanceTo, Option.map_eq_some_iff, Prod.mk.injEq] at h
      obtain ⟨bodyEnd, hadd, rfl, rfl⟩ := h
      have hsum := (checkedAdd_eq_some.mp hadd).1
      split
      · rfl
      · rw [dropSkipped, dropWhile_of_lt]
        intro x hx
        have := hlt x hx
        omega
  | _ =>
      cases h
      rw [dropSkipped, dropWhile_of_lt hlt]

/-- What a step leaves of the map. -/
def SameMap (r r' : Receive π) : Prop := r'.allRuns = r.allRuns ∧ r'.lastSeqTotal = r.lastSeqTotal

/-- The cursor moves. -/
theorem paged_advance {target : Nat} (own : Option MessageId)
    (hp : r.point = .advance target own queue batchEnd stop todo) :
    paged batch maxRuns c now ps (st, .ok r) = some (st.setLastPulledSeq c.key target,
      .ok (({ r with
        cursor := target
        messages := r.messages ++ (own.bind (fun id =>
          (st.setLastPulledSeq c.key target).getMessageById c.key id)).toList } :
            Receive π).nextPacket queue batchEnd stop todo)) :=
  paged_local (by simp only [localStep, hp])

/-- **The call does to a packet what the pass does.** -/
theorem paged_packet (batch maxRuns : Nat) (hp : r.point = .packet pkt queue batchEnd stop todo)
    (hlt : ∀ x ∈ queue, pkt.seq < x.seq) :
    (∃ st' e, c.passPacket now st r.passed pkt = (st', .error e)
      ∧ paged batch maxRuns c now ps (st, .ok r) = some (st', .error e))
    ∨ ∃ st₁ r₁ st' r', paged batch maxRuns c now ps (st, .ok r) = some (st₁, .ok r₁)
      ∧ paged batch maxRuns c now ps (st₁, .ok r₁) = some (st', .ok (r'.nextPacket
        (queue.dropWhile (fun x => decide (x.seq ≤ r'.cursor))) batchEnd stop todo))
      ∧ c.passPacket now st r.passed pkt = (st', .ok r'.passed) ∧ SameMap r r' := by
  have hlocal : paged batch maxRuns c now ps (st, .ok r)
      = some (onPacket c now st r pkt queue batchEnd stop todo) :=
    paged_local (by simp only [localStep, hp])
  unfold onPacket at hlocal
  unfold Client.passPacket
  cases hdec : c.decryptPacket pkt.seq pkt.payload with
  | none =>
      rw [hdec] at hlocal
      refine .inr ⟨_, _, st.setLastPulledSeq c.key pkt.seq, { r with
        cursor := pkt.seq
        messages := r.messages ++ []
        decryptErrors := r.decryptErrors ++ [pkt.seq]
        point := .advance pkt.seq none queue batchEnd stop todo }, hlocal, ?_, ?_, rfl, rfl⟩
      · rw [dropWhile_of_lt hlt]
        exact paged_advance none rfl
      · simp only [passed, List.append_nil]
  | some inner =>
      rw [hdec] at hlocal
      dsimp only at hlocal ⊢
      cases hto : advanceTo pkt.seq inner.content with
      | none =>
          rw [hto] at hlocal
          exact .inl ⟨_, _, rfl, hlocal⟩
      | some dest =>
          obtain ⟨target, skipUntil⟩ := dest
          rw [hto] at hlocal
          have hdrop := dropSkipped_eq hto hlt
          dsimp only at hlocal ⊢
          cases hown : (if inner.sender = c.username then st.getMessageBySeq c.key pkt.seq
              else none) with
          | some id =>
              rw [hown] at hlocal
              dsimp only at hlocal ⊢
              refine .inr ⟨_, _, (st.updateStatus id .delivered).setLastPulledSeq c.key target, { r with
                cursor := target
                messages := r.messages ++ (((st.updateStatus id .delivered).setLastPulledSeq c.key
                  target).getMessageById c.key id).toList
                point := .advance target (some id) (dropSkipped skipUntil queue) batchEnd stop
                  todo }, hlocal, ?_, rfl, rfl, rfl⟩
              rw [← hdrop]
              exact paged_advance (some id) rfl
          | none =>
              rw [hown] at hlocal
              dsimp only at hlocal ⊢
              generalize hres : c.processIncoming now st inner pkt.seq = res at hlocal
              obtain ⟨st₁, e | msg⟩ := res
              · exact .inl ⟨_, _, rfl, hlocal⟩
              · refine .inr ⟨_, _, st₁.setLastPulledSeq c.key target, { r with
                  cursor := target
                  messages := (r.messages ++ msg.toList) ++ []
                  point := .advance target none (dropSkipped skipUntil queue) batchEnd stop todo },
                  hlocal, ?_, ?_, rfl, rfl⟩
                · rw [← hdrop]
                  exact paged_advance none rfl
                · simp only [passed, List.append_nil]

/-! ## What is left -/

/-- The call has done what the pass does. -/
def Comes (target : LocalStore × Except Fault PassState) :
    LocalStore × Except Fault (Receive π) → Prop
  | (st, .error e) => target = (st, .error e)
  | (st, .ok r) => r.point = .done ∧ target = (st, .ok r.passed)

/-- What the pass comes to from here. -/
def outcome (c : Client κ) (now : Int) (ps : PacketStore π) (st : LocalStore) (r : Receive π) :
    LocalStore × Except Fault PassState :=
  c.finish ps (c.passPackets now st r.passed (ps.packets c.key))

/-- The call has the whole map. -/
structure Whole (c : Client κ) (ps : PacketStore π) (r : Receive π) : Prop where
  ascending : Runs.Ascending r.allRuns
  covers : ∀ s, Runs.Covers r.allRuns s ↔ s ∈ ps.live c.key ∧ 0 < s
  last : r.lastSeqTotal = ps.lastSeq c.key

omit [Aead κ π] in
theorem Whole.same {r' : Receive π} (h : Whole c ps r) (hsame : SameMap r r') : Whole c ps r' where
  ascending := hsame.1 ▸ h.ascending
  covers := hsame.1 ▸ h.covers
  last := hsame.2 ▸ h.last

/-- The runs are of live numbers, and of all that are beyond. -/
structure Left (c : Client κ) (ps : PacketStore π) (beyond : Nat) (todo : List (Nat × Nat)) :
    Prop where
  ascending : Runs.Ascending todo
  sound : ∀ s, Runs.Covers todo s → s ∈ ps.live c.key
  complete : ∀ q ∈ ps.live c.key, beyond < q → Runs.Covers todo q

omit [Aead κ π] in
theorem mem_live_of_packet (h : pkt ∈ ps.packets c.key) : pkt.seq ∈ ps.live c.key :=
  PacketStore.mem_live.mpr ⟨_, PacketStore.mem_packets.mp h⟩

omit [Aead κ π] in
theorem packets_sorted (ps : PacketStore π) (dialogue : DialogueKey) :
    (ps.packets dialogue).Pairwise (fun a b => a.seq < b.seq) :=
  List.pairwise_map.mpr (ps.db dialogue).sorted

/-! ## The end -/

variable {target : LocalStore × Except Fault PassState}

theorem comes_done (hp : r.point = .done) (h : target = (st, .ok r.passed)) :
    Lts.Leads (paged batch maxRuns c now ps) (Comes target) (st, .ok r) :=
  .here ⟨hp, h⟩

omit [Aead κ π] in
theorem deleteMessagesBySeqs_nil (st : LocalStore) (key : DialogueKey) :
    st.deleteMessagesBySeqs key [] = st := by
  unfold LocalStore.deleteMessagesBySeqs Table.deleteWhere
  have hkeep : st.messages.rows.filter (fun m => !(decide (m.dialogue = key)
      && m.serverSeq.any (fun s => ([] : List Nat).contains s))) = st.messages.rows := by
    refine List.filter_eq_self.mpr (fun m _ => ?_)
    cases m.serverSeq <;> simp
  simp only [hkeep]

/-- The search in the runs finds what is live. -/
theorem comes_sweep (hp : r.point = .sweep) (hwhole : Whole c ps r)
    (h : target = (st.deleteMessagesBySeqs c.key
      ((st.getDeliveredServerSeqs c.key).filter (fun s => ¬ (s ∈ ps.live c.key ∧ 0 < s))),
        .ok r.passed)) :
    Lts.Leads (paged batch maxRuns c now ps) (Comes target) (st, .ok r) := by
  have hfilter : (st.getDeliveredServerSeqs c.key).filter (fun s => !seqInRuns r.allRuns s)
      = (st.getDeliveredServerSeqs c.key).filter (fun s => ¬ (s ∈ ps.live c.key ∧ 0 < s)) := by
    refine List.filter_congr (fun s _ => ?_)
    have hiff : seqInRuns r.allRuns s = true ↔ s ∈ ps.live c.key ∧ 0 < s :=
      (seqInRuns_eq_true hwhole.ascending).trans (hwhole.covers s)
    by_cases hs : s ∈ ps.live c.key ∧ 0 < s
    · rw [hiff.mpr hs]
      simp [hs]
    · have hfalse : seqInRuns r.allRuns s = false :=
        Bool.eq_false_iff.mpr (fun htrue => hs (hiff.mp htrue))
      rw [hfalse]
      simp [hs]
  rw [← hfilter] at h
  cases hts : (st.getDeliveredServerSeqs c.key).filter (fun s => !seqInRuns r.allRuns s) with
  | nil =>
      have hstep : r.localStep c now st = some (st, .ok { r with point := .done }) := by
        simp only [localStep, hp, hts]
      rw [hts, deleteMessagesBySeqs_nil] at h
      exact .step (paged_local hstep) (comes_done rfl h)
  | cons t ts =>
      have hstep : r.localStep c now st = some (st, .ok { r with point := .delete (t :: ts) }) := by
        simp only [localStep, hp, hts]
      rw [hts] at h
      exact .step (paged_local hstep) (.step (paged_local rfl) (comes_done rfl h))

theorem comes_bump (hp : r.point = .bump) (hwhole : Whole c ps r)
    (hend : ∀ q ∈ ps.live c.key, q ≤ r.cursor) (h : target = outcome c now ps st r) :
    Lts.Leads (paged batch maxRuns c now ps) (Comes target) (st, .ok r) := by
  unfold outcome at h
  rw [Client.passPackets_end (fun x hx => hend _ (mem_live_of_packet hx)), Client.finish,
    Client.passEnd] at h
  by_cases hlt : r.cursor < r.lastSeqTotal
  · have hstep : r.localStep c now st = some (st.setLastPulledSeq c.key r.lastSeqTotal,
        .ok { r with cursor := r.lastSeqTotal, point := .sweep }) := by
      simp only [localStep, hp, if_pos hlt]
    refine .step (paged_local hstep) (comes_sweep rfl (hwhole.same ⟨rfl, rfl⟩) ?_)
    have hlt : r.passed.cursor < ps.lastSeq c.key := hwhole.last ▸ hlt
    rw [h, hwhole.last, if_pos hlt, max_eq_right hlt.le]
    rfl
  · have hstep : r.localStep c now st = some (st, .ok { r with point := .sweep }) := by
      simp only [localStep, hp, if_neg hlt]
    refine .step (paged_local hstep) (comes_sweep rfl (hwhole.same ⟨rfl, rfl⟩) ?_)
    have hlt : ¬ r.passed.cursor < ps.lastSeq c.key := hwhole.last ▸ hlt
    rw [h, if_neg hlt, max_eq_left (Nat.le_of_not_lt hlt)]
    rfl

/-! ## The loops -/

omit [Aead κ π] in
theorem mem_dropWhile_sorted {n : Nat} {x : RawPacket π}
    (hsorted : queue.Pairwise (fun a b => a.seq < b.seq)) :
    x ∈ queue.dropWhile (fun x => decide (x.seq ≤ n)) ↔ x ∈ queue ∧ n < x.seq := by
  induction queue with
  | nil => simp
  | cons y queue ih =>
      obtain ⟨hlt, hsorted⟩ := List.pairwise_cons.mp hsorted
      by_cases hy : y.seq ≤ n
      · rw [List.dropWhile_cons_of_pos (by simpa using hy), ih hsorted, List.mem_cons]
        constructor
        · exact fun h => ⟨.inr h.1, h.2⟩
        · rintro ⟨rfl | hx, hn⟩
          · omega
          · exact ⟨hx, hn⟩
      · rw [List.dropWhile_cons_of_neg (by simpa using hy)]
        constructor
        · intro hx
          refine ⟨hx, ?_⟩
          rcases List.mem_cons.mp hx with rfl | hx
          · omega
          · have := hlt x hx
            omega
        · exact And.left

/-- **The loop over a batch does what the pass does**, and goes on behind the batch. -/
theorem comes_packets (hnext : ∀ st (r : Receive π), Whole c ps r →
      (∀ q ∈ ps.live c.key, r.cursor < q → batchEnd < q) → target = outcome c now ps st r →
      Lts.Leads (paged batch maxRuns c now ps) (Comes target)
        (st, .ok (r.nextPacket [] batchEnd stop todo)))
    (hp : r.point = .packet pkt queue batchEnd stop todo) (hwhole : Whole c ps r)
    (hsorted : (pkt :: queue).Pairwise (fun a b => a.seq < b.seq))
    (hmem : ∀ x, x ∈ pkt :: queue ↔ x ∈ ps.packets c.key ∧ r.cursor < x.seq ∧ x.seq ≤ batchEnd)
    (h : target = outcome c now ps st r) :
    Lts.Leads (paged batch maxRuns c now ps) (Comes target) (st, .ok r) := by
  induction hk : queue.length using Nat.strong_induction_on generalizing queue pkt st r with
  | _ k ih =>
      obtain ⟨hlt, hqueue⟩ := List.pairwise_cons.mp hsorted
      obtain ⟨hpkt, hcursor, hbatch⟩ := (hmem pkt).mp List.mem_cons_self
      -- the packet is the first one above the cursor
      have hleast : ∀ x ∈ ps.packets c.key, r.passed.cursor < x.seq → pkt.seq ≤ x.seq := by
        intro x hx hxcursor
        by_cases hxbatch : x.seq ≤ batchEnd
        · rcases List.mem_cons.mp ((hmem x).mpr ⟨hx, hxcursor, hxbatch⟩) with rfl | hx
          · exact Nat.le_refl _
          · exact (hlt x hx).le
        · omega
      have hpass := @Client.passPackets_next κ π _ c now st r.passed pkt _
        (packets_sorted ps c.key) hpkt hcursor hleast
      unfold outcome at h
      rw [hpass] at h
      rcases paged_packet batch maxRuns hp hlt with
        ⟨st', e, hstep, hfail⟩ | ⟨st₁, r₁, st', r', hfirst, hsecond, hstep, hsame⟩
      · rw [hstep] at h
        exact .step hfail (.here h)
      · rw [hstep] at h
        have hover : pkt.seq ≤ r'.cursor := Client.passPacket_cursor hstep
        have hwhole' := hwhole.same hsame
        refine .step hfirst (.step hsecond ?_)
        have hrest : ∀ x, x ∈ queue.dropWhile (fun x => decide (x.seq ≤ r'.cursor))
            ↔ x ∈ ps.packets c.key ∧ r'.cursor < x.seq ∧ x.seq ≤ batchEnd := by
          intro x
          rw [mem_dropWhile_sorted hqueue]
          constructor
          · rintro ⟨hx, hxcursor⟩
            obtain ⟨hpackets, -, hxbatch⟩ := (hmem x).mp (List.mem_cons_of_mem _ hx)
            exact ⟨hpackets, hxcursor, hxbatch⟩
          · rintro ⟨hpackets, hxcursor, hxbatch⟩
            rcases List.mem_cons.mp ((hmem x).mpr ⟨hpackets, by omega, hxbatch⟩) with rfl | hx
            · omega
            · exact ⟨hx, hxcursor⟩
        have hsub := List.dropWhile_sublist (fun x : RawPacket π => decide (x.seq ≤ r'.cursor))
          (l := queue)
        generalize hq : queue.dropWhile (fun x => decide (x.seq ≤ r'.cursor)) = rest at hrest hsub
        cases rest with
        | nil =>
            refine hnext st' r' hwhole' (fun q hq hqcursor => ?_) h
            obtain ⟨payload, hget⟩ := PacketStore.mem_live.mp hq
            by_contra hle
            have := (hrest ⟨q, payload⟩).mpr
              ⟨PacketStore.mem_packets.mpr hget, hqcursor, Nat.le_of_not_lt hle⟩
            exact List.not_mem_nil this
        | cons pkt' queue' =>
            have hlen := hsub.length_le
            rw [List.length_cons] at hlen
            exact ih queue'.length (by omega) rfl (hwhole'.same ⟨rfl, rfl⟩) (hqueue.sublist hsub)
              hrest h rfl

omit [Aead κ π] in
/-- Saturation is only met beyond the run. -/
theorem saturatingAdd_one {n : Nat} (hu : stop + 1 < u64Size) :
    saturatingAdd n 1 = n + 1 ∨ (stop < saturatingAdd n 1 ∧ stop ≤ n) := by
  generalize hsize : u64Size = size at hu
  unfold saturatingAdd
  rw [hsize]
  omega

/-- **The loop over the batches of a run does what the pass does.** -/
theorem comes_batches (hu : stop + 1 < u64Size) (hleft : Left c ps stop todo)
    (hrun : ∀ st (r : Receive π), Whole c ps r → Left c ps r.cursor todo →
      target = outcome c now ps st r →
      Lts.Leads (paged batch maxRuns c now ps) (Comes target) (st, .ok (r.nextRun todo)))
    {seq : Nat} (hcursor : r.cursor < seq) (hle : seq ≤ stop)
    (hlive : ∀ s, seq ≤ s → s ≤ stop → s ∈ ps.live c.key)
    (hleast : ∀ q ∈ ps.live c.key, r.cursor < q → seq ≤ q)
    (hp : r.point = .pull seq stop todo) (hwhole : Whole c ps r)
    (h : target = outcome c now ps st r) :
    Lts.Leads (paged batch maxRuns c now ps) (Comes target) (st, .ok r) := by
  induction hk : stop - seq using Nat.strong_induction_on generalizing seq st r with
  | _ k ih =>
      generalize hbatch : min (saturatingAdd seq (batch - 1)) stop = last
      have hlast : seq ≤ last ∧ last ≤ stop := by
        rw [← hbatch]
        unfold saturatingAdd
        omega
      obtain ⟨packets, hpull⟩ : ∃ packets, ps.pull c.key (seq - 1) last = .ok packets := by
        unfold PacketStore.pull
        rw [if_neg (by simp only [Bool.or_eq_true, decide_eq_true_eq]; omega)]
        split <;> exact ⟨_, rfl⟩
      have hstep : paged batch maxRuns c now ps (st, .ok r)
          = some (st, .ok (r.onBatch packets last stop todo)) := by
        unfold paged
        simp only [hp, hbatch, hpull]
      have hsorted := PacketStore.pull_sorted hpull
      have hsort : packets.insertionSort (fun a b => a.seq ≤ b.seq) = packets :=
        List.Pairwise.insertionSort_eq (hsorted.imp Nat.le_of_lt)
      have hmem : ∀ x, x ∈ packets ↔ x ∈ ps.packets c.key ∧ r.cursor < x.seq ∧ x.seq ≤ last := by
        intro x
        rw [PacketStore.mem_pull hpull (by omega), PacketStore.mem_packets]
        constructor
        · rintro ⟨hlow, hhigh, hget⟩
          exact ⟨hget, by omega, hhigh⟩
        · rintro ⟨hget, hlow, hhigh⟩
          have := hleast x.seq (PacketStore.mem_live.mpr ⟨_, hget⟩) hlow
          exact ⟨by omega, hhigh, hget⟩
      refine .step hstep ?_
      unfold onBatch
      rw [hsort]
      cases packets with
      | nil =>
          -- the batch is not empty: its first number is live
          obtain ⟨payload, hget⟩ := PacketStore.mem_live.mp (hlive seq (Nat.le_refl _) hle)
          have := (hmem ⟨seq, payload⟩).mpr ⟨PacketStore.mem_packets.mpr hget, hcursor, hlast.1⟩
          exact absurd this List.not_mem_nil
      | cons pkt queue =>
          refine comes_packets (fun st r hwhole hbeyond h => ?_) rfl (hwhole.same ⟨rfl, rfl⟩)
            hsorted hmem h
          have hone : saturatingAdd last 1 = last + 1 := by
            unfold saturatingAdd
            omega
          have hcases := @saturatingAdd_one stop r.cursor hu
          unfold nextPacket nextBatch
          dsimp only
          rw [hone]
          split
          · rename_i hmore
            refine ih (stop - max (saturatingAdd r.cursor 1) (last + 1)) (by omega) ?_ hmore ?_ ?_ rfl
              (hwhole.same ⟨rfl, rfl⟩) h rfl
            · show r.cursor < _
              omega
            · intro s hs hsstop
              exact hlive s (by omega) hsstop
            · intro q hq hqcursor
              have hqlast := hbeyond q hq hqcursor
              have hqcursor : r.cursor < q := hqcursor
              omega
          · rename_i hmore
            refine hrun st r hwhole ⟨hleft.ascending, hleft.sound, fun q hq hqcursor => ?_⟩ h
            have hqlast := hbeyond q hq hqcursor
            exact hleft.complete q hq (by omega)

/-- **The loop over the runs does what the pass does.** -/
theorem comes_runs (hrange : ∀ q ∈ ps.live c.key, q + 1 < u64Size) (hwhole : Whole c ps r)
    (hleft : Left c ps r.cursor todo) (h : target = outcome c now ps st r) :
    Lts.Leads (paged batch maxRuns c now ps) (Comes target) (st, .ok (r.nextRun todo)) := by
  induction todo generalizing st r with
  | nil =>
      refine comes_bump rfl (hwhole.same ⟨rfl, rfl⟩) (fun q hq => ?_) h
      by_contra hlt
      exact Runs.not_covers_nil (hleft.complete q hq (Nat.lt_of_not_le hlt))
  | cons run todo ih =>
      obtain ⟨first, stop⟩ := run
      have hproper := hleft.ascending.head
      have hlive : stop ∈ ps.live c.key :=
        hleft.sound stop (Runs.covers_cons.mpr (.inl ⟨hproper, Nat.le_refl _⟩))
      have hstop := hrange stop hlive
      -- what is beyond the run is in the runs after it
      have hbeyond : ∀ q ∈ ps.live c.key, r.cursor < q → stop < q → Runs.Covers todo q := by
        intro q hq hqcursor hqstop
        rcases Runs.covers_cons.mp (hleft.complete q hq hqcursor) with hin | hin
        · have hin : q ≤ stop := hin.2
          omega
        · exact hin
      have hsound : ∀ s, Runs.Covers todo s → s ∈ ps.live c.key := fun s hs =>
        hleft.sound s (Runs.covers_cons.mpr (.inr hs))
      unfold nextRun
      split
      · rename_i hpassed
        refine ih hwhole ⟨hleft.ascending.tail, hsound, fun q hq hqcursor => ?_⟩ h
        exact hbeyond q hq hqcursor (by omega)
      · rename_i hahead
        have hone : saturatingAdd r.cursor 1 = r.cursor + 1 := by
          unfold saturatingAdd
          omega
        have hproper : first ≤ stop := hproper
        rw [hone, if_pos (by omega)]
        refine comes_batches hstop ⟨hleft.ascending.tail, hsound, fun q hq hqstop => ?_⟩
          (fun st r hw hl ht => ih hw hl ht) ?_ (by omega) (fun s hs hsstop => ?_)
          (fun q hq hqcursor => ?_) rfl (hwhole.same ⟨rfl, rfl⟩) h
        · exact hbeyond q hq (by omega) hqstop
        · show r.cursor < _
          omega
        · exact hleft.sound s (Runs.covers_cons.mpr (.inl ⟨(le_max_left _ _).trans hs, hsstop⟩))
        · have hqcursor : r.cursor < q := hqcursor
          rcases Runs.covers_cons.mp (hleft.complete q hq hqcursor) with hin | ⟨run, hrun, hin⟩
          · have hin : first ≤ q := hin.1
            omega
          · have hlater := (List.pairwise_cons.mp hleft.ascending.ordered).1 run hrun
            have hlater : stop < run.1 := hlater
            omega

/-! ## The map -/

theorem comes_load (hrange : ∀ q ∈ ps.live c.key, q + 1 < u64Size) (hp : r.point = .load)
    (hwhole : Whole c ps r) (hfresh : r.messages = [] ∧ r.decryptErrors = [])
    (h : target = c.plainReceive now ps st) :
    Lts.Leads (paged batch maxRuns c now ps) (Comes target) (st, .ok r) := by
  have hlocal : r.localStep c now st = some (st, .ok (({ r with
      allRuns := r.allRuns.insertionSort (fun a b => a.1 ≤ b.1)
      cursor := st.getLastPulledSeq c.key } : Receive π).nextRun
        (r.allRuns.insertionSort (fun a b => a.1 ≤ b.1)))) := by
    simp only [localStep, hp]
  rw [hwhole.ascending.insertionSort_eq] at hlocal
  refine .step (paged_local hlocal) (comes_runs hrange ⟨hwhole.ascending, hwhole.covers,
    hwhole.last⟩ ⟨hwhole.ascending, fun s hs => ((hwhole.covers s).mp hs).1, fun q hq hlt =>
    (hwhole.covers q).mpr ⟨hq, Nat.zero_lt_of_lt hlt⟩⟩ ?_)
  rw [h, Client.plainReceive_eq, outcome, passed, hfresh.1, hfresh.2]

/-- The pages so far. -/
structure Paged (c : Client κ) (ps : PacketStore π) (after : Nat) (r : Receive π) : Prop where
  ascending : Runs.Ascending r.allRuns
  covers : ∀ s, Runs.Covers r.allRuns s ↔ s ∈ ps.live c.key ∧ 0 < s ∧ s ≤ after
  last : r.lastSeqTotal ≤ ps.lastSeq c.key
  fresh : r.messages = [] ∧ r.decryptErrors = []

/-- **The loop over the pages of the map ends with the whole map.** -/
theorem comes_map (hrange : ∀ q ∈ ps.live c.key, q + 1 < u64Size) (hmax : 0 < maxRuns) {after : Nat}
    (hp : r.point = .map after) (hpages : Paged c ps after r)
    (h : target = c.plainReceive now ps st) :
    Lts.Leads (paged batch maxRuns c now ps) (Comes target) (st, .ok r) := by
  induction hk : u64Size - after using Nat.strong_induction_on generalizing after r with
  | _ k ih =>
      have hu : ∀ q ∈ ps.live c.key, q < u64Size := fun q hq => by
        have := hrange q hq
        omega
      generalize hscan : ps.mapRuns c.key after 0 maxRuns = scan
      have hstep : paged batch maxRuns c now ps (st, .ok r)
          = some (st, .ok { r with point := .scanned scan.1 scan.2 }) := by
        unfold paged
        simp only [hp, hscan]
      refine .step hstep (.step rfl ?_)
      have hmap : ps.map c.key after 0 maxRuns = .ok ⟨scan.1, ps.lastSeq c.key, scan.2⟩ := by
        unfold PacketStore.map
        rw [hscan]
        rfl
      have hpage := ps.map_page c.key hu hmax hmap
      have hlast : max r.lastSeqTotal (ps.lastSeq c.key) = ps.lastSeq c.key :=
        max_eq_right hpages.last
      have hrun : ∀ run ∈ scan.1, after < run.1 := fun run hrun =>
        ((hpage.covers run.1).mp ⟨run, hrun, Nat.le_refl _, hpage.ascending.proper run hrun⟩).2.1
      have hbefore : ∀ run ∈ r.allRuns, run.2 ≤ after := fun run hrun =>
        ((hpages.covers run.2).mp ⟨run, hrun, hpages.ascending.proper run hrun, Nat.le_refl _⟩).2.2
      have hascending : Runs.Ascending (r.allRuns ++ scan.1) :=
        hpages.ascending.append hpage.ascending (fun a ha b hb =>
          Nat.lt_of_le_of_lt (hbefore a ha) (hrun b hb))
      unfold onMap
      dsimp only
      split
      · -- nothing is beyond
        rename_i hnone
        have hnil := Runs.lastEnd?_eq_none.mp hnone
        refine comes_load hrange rfl ⟨hpages.ascending, fun s => ?_, hlast⟩ hpages.fresh h
        show Runs.Covers r.allRuns s ↔ _
        rw [hpages.covers]
        exact ⟨fun hs => ⟨hs.1, hs.2.1⟩, fun hs =>
          ⟨hs.1, hs.2, hpage.of_runs_nil hnil hs.1 (.inl rfl)⟩⟩
      · rename_i lastEnd hend
        have hmem := hpage.lastEnd_mem hend
        cases htrunc : scan.2 with
        | false =>
            refine comes_load hrange rfl ⟨hascending, fun s => ?_, hlast⟩ hpages.fresh h
            show Runs.Covers (r.allRuns ++ scan.1) s ↔ _
            rw [Runs.covers_append, hpages.covers, hpage.covers_of_whole htrunc]
            constructor
            · rintro (hs | hs)
              · exact ⟨hs.1, hs.2.1⟩
              · exact ⟨hs.1, Nat.zero_lt_of_lt hs.2.1⟩
            · rintro ⟨hs, hpos⟩
              rcases Nat.lt_or_ge after s with hlt | hge
              · exact .inr ⟨hs, hlt, .inl rfl⟩
              · exact .inl ⟨hs, hpos, hge⟩
        | true =>
            have hlt := hu lastEnd hmem.1
            have hafter := hmem.2.1
            refine ih (u64Size - lastEnd) (by omega) rfl ⟨hascending, fun s => ?_, hlast.le,
              hpages.fresh⟩ rfl
            show Runs.Covers (r.allRuns ++ scan.1) s ↔ _
            rw [Runs.covers_append, hpages.covers, hpage.covers_of_truncated htrunc hend]
            constructor
            · rintro (hs | hs)
              · exact ⟨hs.1, hs.2.1, hs.2.2.trans hafter.le⟩
              · exact ⟨hs.1, Nat.zero_lt_of_lt hs.2.1, hs.2.2.2⟩
            · rintro ⟨hs, hpos, hle⟩
              rcases Nat.lt_or_ge after s with hlt | hge
              · exact .inr ⟨hs, hlt, .inl rfl, hle⟩
              · exact .inl ⟨hs, hpos, hge⟩

end Receive

/-! ## Where the cursor ends -/

namespace Client

/-- The end of the body that the packet announces, or the packet's own number. -/
def reach (c : Client κ) (pkt : RawPacket π) : Nat :=
  (((c.decryptPacket pkt.seq pkt.payload).bind (fun inner =>
    Receive.advanceTo pkt.seq inner.content)).map Prod.fst).getD pkt.seq

/-- The packets that a pass meets: not the bodies of those it met before. -/
def met (c : Client κ) : Nat → List (RawPacket π) → List (RawPacket π)
  | _, [] => []
  | cursor, pkt :: pkts =>
      if pkt.seq ≤ cursor then met c cursor pkts else pkt :: met c (c.reach pkt) pkts

theorem met_sublist (cursor : Nat) (l : List (RawPacket π)) : (c.met cursor l).Sublist l := by
  induction l generalizing cursor with
  | nil => exact List.Sublist.slnil
  | cons x l ih =>
      unfold met
      split
      · exact (ih cursor).cons x
      · exact (ih _).cons_cons x

/-- What a packet does to the cursor, and to the stored one. -/
theorem passPacket_ok (h : c.passPacket now st p pkt = (st', .ok p')) :
    p'.cursor = c.reach pkt ∧ ∃ st₁ : LocalStore, st₁.dialogueState = st.dialogueState
      ∧ st' = st₁.setLastPulledSeq c.key (c.reach pkt) := by
  unfold passPacket at h
  unfold reach
  split at h
  · rename_i hdec
    cases h
    rw [hdec]
    exact ⟨rfl, st, rfl, rfl⟩
  · rename_i inner hdec
    rw [hdec]
    split at h
    · cases h
    · rename_i target skipUntil hto
      have hreach : (((some inner).bind (fun inner =>
          Receive.advanceTo pkt.seq inner.content)).map Prod.fst).getD pkt.seq = target := by
        rw [Option.bind_some, hto]
        rfl
      rw [hreach]
      split at h
      · rename_i id _
        cases h
        exact ⟨rfl, st.updateStatus id .delivered, rfl, rfl⟩
      · split at h
        · cases h
        · rename_i st₁ msg hproc
          cases h
          have hstate := processIncoming_dialogueState c now st inner pkt.seq
          rw [hproc] at hstate
          exact ⟨rfl, st₁, hstate, rfl⟩

/-- The stored cursor. -/
def stored (c : Client κ) (st : LocalStore) : Int := (st.counters c.key).lastPulledSeq

omit [Aead κ π] in
theorem stored_setLastPulledSeq {n m : Nat} (h : c.stored st = n) (hle : n ≤ m) (hm : m < i64Size) :
    c.stored (st.setLastPulledSeq c.key m) = m := by
  unfold stored LocalStore.counters at h ⊢
  unfold LocalStore.setLastPulledSeq
  rw [LocalStore.putState_dialogueState_self, Option.getD_some, toI64_of_lt hm]
  cases hrow : st.dialogueState c.key with
  | none => rfl
  | some s =>
      rw [hrow, Option.getD_some] at h
      dsimp only
      rw [h]
      omega

/-- **The cursor of a pass.** -/
theorem passPackets_cursor {l : List (RawPacket π)}
    (h : c.passPackets now st p l = (st', .ok p')) :
    p'.cursor = ((c.met p.cursor l).map c.reach).foldl max p.cursor
    ∧ (c.stored st = p.cursor → (∀ pkt ∈ c.met p.cursor l, c.reach pkt < i64Size) →
        c.stored st' = p'.cursor) := by
  induction l generalizing st p with
  | nil =>
      cases h
      exact ⟨rfl, fun hstored _ => hstored⟩
  | cons x l ih =>
      rw [passPackets] at h
      unfold met
      by_cases hle : x.seq ≤ p.cursor
      · rw [if_pos hle] at h ⊢
        exact ih h
      · rw [if_neg hle] at h ⊢
        split at h
        · cases h
        · rename_i st₁ p₁ hpass
          obtain ⟨hcursor, st₂, hstate, rfl⟩ := passPacket_ok hpass
          have hover : p.cursor ≤ c.reach x := by
            have := passPacket_cursor hpass
            omega
          obtain ⟨hend, hstored⟩ := ih h
          rw [hcursor] at hend hstored
          refine ⟨?_, fun hst hbound => hstored ?_ (fun pkt hpkt => ?_)⟩
          · rw [List.map_cons, List.foldl_cons, max_eq_right hover]
            exact hend
          · refine stored_setLastPulledSeq ?_ hover (hbound x List.mem_cons_self)
            unfold stored
            rw [LocalStore.counters_congr (congrFun hstate c.key)]
            exact hst
          · exact hbound pkt (List.mem_cons_of_mem x hpkt)

end Client

/-! ## The whole call -/

/-- **A `receive` does what a plain pass does**, whatever the sizes of its batches and pages: it fails
where the pass fails, and else returns its messages and leaves its store. The pass meets packets in
ascending order and none twice. It ends with the greatest of the cursor it started with, the greatest
live number, and the ends of the bodies that the packets it met announce; that is the stored cursor,
too, where these numbers are below `2 ^ 63`. -/
theorem receive_eq_plain (batch : Nat) {maxRuns : Nat} (hmax : 0 < maxRuns)
    (hrange : ∀ q ∈ ps.live c.key, q < i64Size) :
    (∃ k, Receive.Comes (c.plainReceive now ps st)
      (Lts.iterate (Receive.paged batch maxRuns c now ps) k (st, .ok Receive.start)))
    ∧ ((c.met (st.getLastPulledSeq c.key) (ps.packets c.key)).map RawPacket.seq).Pairwise (· < ·)
    ∧ ∀ st' p', c.plainReceive now ps st = (st', .ok p') →
        p'.cursor = max (((c.met (st.getLastPulledSeq c.key) (ps.packets c.key)).map c.reach).foldl max
          (st.getLastPulledSeq c.key)) (ps.lastSeq c.key)
        ∧ (c.stored st = st.getLastPulledSeq c.key →
            (∀ pkt ∈ c.met (st.getLastPulledSeq c.key) (ps.packets c.key), c.reach pkt < i64Size) →
            c.stored st' = p'.cursor) := by
  refine ⟨?_, ?_, fun st' p' h => ?_⟩
  · have hleads : Lts.Leads (Receive.paged batch maxRuns c now ps)
        (Receive.Comes (c.plainReceive now ps st)) (st, .ok Receive.start) := by
      refine Receive.comes_map (fun q hq => ?_) hmax rfl ⟨Runs.Ascending.nil, fun s => ?_,
        Nat.zero_le _, rfl, rfl⟩ rfl
      · have hlt := hrange q hq
        have : i64Size < u64Size := by decide
        omega
      · exact ⟨fun hs => absurd hs Runs.not_covers_nil, fun hs => by omega⟩
    exact hleads.iterate
  · have hsorted := Receive.packets_sorted ps c.key
    exact List.pairwise_map.mpr (hsorted.sublist (Client.met_sublist _ _))
  · rw [Client.plainReceive_eq] at h
    generalize hres : c.passPackets now st ⟨st.getLastPulledSeq c.key, [], []⟩ (ps.packets c.key)
      = res at h
    obtain ⟨st₁, e | p₁⟩ := res
    · cases h
    · obtain ⟨hcursor, hstored⟩ := Client.passPackets_cursor hres
      cases h
      refine ⟨congrArg (max · (ps.lastSeq c.key)) hcursor, fun hst hbound => ?_⟩
      have hlast : ps.lastSeq c.key < i64Size := by
        rcases ps.lastSeq_mem_or_zero c.key with hmem | hzero
        · exact hrange _ hmem
        · rw [hzero]
          decide
      have hst₁ := hstored hst hbound
      unfold Client.passEnd
      dsimp only
      by_cases hlt : p₁.cursor < ps.lastSeq c.key
      · rw [if_pos hlt, max_eq_right hlt.le]
        exact Client.stored_setLastPulledSeq hst₁ hlt.le hlast
      · rw [if_neg hlt, max_eq_left (Nat.le_of_not_lt hlt)]
        exact hst₁

/-! ## Two servers -/

section Example

open Receive

/-- Bob has received two packets in pages of two runs. -/
theorem receive_eq_plain_oneAndThree :
    (∃ k, Comes ((Sample.client "bob").plainReceive 0 oneAndThree LocalStore.empty)
      (Lts.iterate (paged 16 2 (Sample.client "bob") 0 oneAndThree) k (LocalStore.empty, .ok start)))
    ∧ (((Sample.client "bob").met 0 (oneAndThree.packets ⟨"alice", "bob"⟩)).map RawPacket.seq).Pairwise
        (· < ·)
    ∧ ∀ st' p', (Sample.client "bob").plainReceive 0 oneAndThree LocalStore.empty = (st', .ok p') →
        p'.cursor = max ((((Sample.client "bob").met 0 (oneAndThree.packets ⟨"alice", "bob"⟩)).map
          (Sample.client "bob").reach).foldl max 0) (oneAndThree.lastSeq ⟨"alice", "bob"⟩)
        ∧ ((Sample.client "bob").stored LocalStore.empty = (0 : Nat) →
            (∀ pkt ∈ (Sample.client "bob").met 0 (oneAndThree.packets ⟨"alice", "bob"⟩),
              (Sample.client "bob").reach pkt < i64Size) →
            (Sample.client "bob").stored st' = p'.cursor) :=
  receive_eq_plain 16 (by decide) (by decide)

/-- Bob has received up to `5` before. -/
def afterFive : LocalStore := LocalStore.empty.setLastPulledSeq ⟨"alice", "bob"⟩ 5

/-- A header that announces three chunks, which are not there. -/
def headerOnly : PacketStore Sealed :=
  PacketStore.empty.put ⟨"alice", "bob"⟩ 1
    ⟨7, 0, ⟨"f", 0, "alice", .fileHeader "t" .file "f" "m" 3 3 none, none⟩⟩

/-- Where the cursor is above all there is, it stays; and it goes to the end of a body that is not
there. -/
theorem cursor_above_all :
    (∃ k st r, Lts.iterate (alone (Sample.client "bob") 0 oneAndThree) k (afterFive, .ok start)
        = (st, .ok r) ∧ r.point = .done ∧ r.cursor = 5
        ∧ st.getLastPulledSeq ⟨"alice", "bob"⟩ = 5 ∧ oneAndThree.live ⟨"alice", "bob"⟩ = [1, 3])
    ∧ ∃ k st r, Lts.iterate (alone (Sample.client "bob") 0 headerOnly) k (LocalStore.empty, .ok start)
        = (st, .ok r) ∧ r.point = .done ∧ r.cursor = 4
        ∧ st.getLastPulledSeq ⟨"alice", "bob"⟩ = 4 ∧ headerOnly.live ⟨"alice", "bob"⟩ = [1] :=
  ⟨⟨5, _, _, rfl, by decide⟩, ⟨8, _, _, rfl, by decide⟩⟩

end Example

end Paranoia
