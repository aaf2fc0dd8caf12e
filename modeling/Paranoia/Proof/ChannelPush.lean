import Paranoia.Client.ChannelPush
import Paranoia.Lib.Table
import Paranoia.Proof.CodexChannel

/-!
# Pushing to the agents

A process has sent, or has in hand, every message of its topic between the cursor it began with and
what it has read; and a monitor that sees no change has read all there is. So an agent gets every
message of its topic once, and no other (`messages_pushed`), as long as messages come in above what
has been read, and a monitor's read is not cut off.

When it is, the version of the store is known already, and the monitor does not read on
(`backlog_left`).
-/

namespace Paranoia

section Maximum

variable {rows : List StoreRow} {cur : ServerSeq}

theorem le_foldl_seq : cur ≤ rows.foldl (fun cur m => max cur m.seq) cur := by
  rw [← List.foldl_map]
  exact (Table.le_foldl_max _ cur).1

theorem seq_le_foldl {r : StoreRow} (h : r ∈ rows) :
    r.seq ≤ rows.foldl (fun cur m => max cur m.seq) cur := by
  rw [← List.foldl_map]
  exact (Table.le_foldl_max _ cur).2 _ (List.mem_map_of_mem h)

theorem foldl_seq_mem (rows : List StoreRow) (cur : ServerSeq) :
    rows.foldl (fun cur m => max cur m.seq) cur = cur
    ∨ ∃ b ∈ rows, rows.foldl (fun cur m => max cur m.seq) cur = b.seq := by
  induction rows generalizing cur with
  | nil => exact .inl rfl
  | cons r rows ih =>
      rcases ih (max cur r.seq) with heq | ⟨b, hb, heq⟩
      · rcases le_total cur r.seq with hle | hle
        · exact .inr ⟨r, List.mem_cons_self, heq.trans (max_eq_right hle)⟩
        · exact .inl (heq.trans (max_eq_left hle))
      · exact .inr ⟨b, List.mem_cons_of_mem _ hb, heq⟩

end Maximum

namespace StoreRow

variable {store : List StoreRow} {after : ServerSeq} {limit : Nat} {r : StoreRow}

/-- A batch that is not cut off has all rows. -/
theorem mem_messagesAfterSeq_of_length (hr : r ∈ store) (hafter : after < r.seq)
    (hcontent : r.content.isSome) (hlen : (store.filter (after < ·.seq)).length ≤ limit) :
    r ∈ messagesAfterSeq store after limit := by
  have hfilter : r ∈ store.filter (after < ·.seq) :=
    List.mem_filter.mpr ⟨hr, decide_eq_true hafter⟩
  refine List.mem_filter.mpr ⟨?_, hcontent⟩
  rw [List.take_of_length_le (by rw [List.length_insertionSort]; exact hlen)]
  exact (List.mem_insertionSort _).mpr hfilter

/-- A batch without rows has none to read. -/
theorem le_of_messagesAfterSeq_eq_nil (hread : ∀ r ∈ store, r.content.isSome) (hr : r ∈ store)
    (h : messagesAfterSeq store after (limit + 1) = []) : r.seq ≤ after := by
  by_contra hlt
  have hfilter : r ∈ store.filter (after < ·.seq) :=
    List.mem_filter.mpr ⟨hr, decide_eq_true (not_le.mp hlt)⟩
  have hsort := (List.mem_insertionSort fun a b : StoreRow => a.seq ≤ b.seq).mpr hfilter
  cases hsorted : (store.filter (after < ·.seq)).insertionSort fun a b => a.seq ≤ b.seq with
  | nil =>
      rw [hsorted] at hsort
      cases hsort
  | cons b rows =>
      have hb : b ∈ store.filter (after < ·.seq) :=
        (List.mem_insertionSort _).mp (hsorted ▸ List.mem_cons_self)
      have hbatch : b ∈ messagesAfterSeq store after (limit + 1) := by
        refine List.mem_filter.mpr ⟨?_, hread b (List.mem_filter.mp hb).1⟩
        rw [hsorted, List.take_succ_cons]
        exact List.mem_cons_self
      rw [h] at hbatch
      cases hbatch

end StoreRow

namespace PushWorld

variable {w w' w₀ : PushWorld} {p p' : PushProcess} {i : Nat}

/-! ## What is known of a process -/

theorem inScope_of_key {scope : TopicScope} {key : String} {r : StoreRow}
    (hkey : scope.scopeKey = some key) (h : w.OfTopic key r) : w.inScope scope r := by
  obtain ⟨-, htopic⟩ := h
  cases scope with
  | unset => cases hkey
  | main =>
      cases hkey
      rw [if_pos rfl] at htopic
      exact decide_eq_true htopic
  | named topic =>
      cases hkey
      rw [if_neg topic.nonempty] at htopic
      exact decide_eq_true htopic

/-- In a round the topic is the one that the cursor is of. -/
def At (p : PushProcess) : Prop :=
  match p.pc with
  | .top => True
  | .waiting scope _ | .reading scope => scope = p.topic ∧ scope.scopeKey = p.activeKey
  | .batch key scope _ => scope = p.topic ∧ scope.scopeKey = some key ∧ p.activeKey = some key

/-- No read is due. -/
def Settled (p : PushProcess) : Prop :=
  match p.pc with
  | .waiting _ true | .reading _ => False
  | _ => True

structure Good (w : PushWorld) (p : PushProcess) : Prop where
  dv : ∀ v ∈ p.lastDv, v ≤ w.dataVersion
  at_ : At p
  sorted : p.hand.Pairwise fun a b => a.seq < b.seq
  ahead : ∀ b ∈ p.hand, p.from_ < b.seq
  topic : ∀ s ∈ p.sent, w.inScope s.topic s.row
  once : (p.sent.map fun s => (s.key, s.row.key)).Nodup
  below : ∀ s ∈ p.sent, p.activeKey = some s.key → s.row.seq ≤ p.from_
  passed : ∀ key ∈ p.activeKey, ∀ r ∈ w.store, w.OfTopic key r → p.start < r.seq →
    r.seq ≤ p.newcur → r ∈ p.hand ∨ ∃ s ∈ p.sent, s.key = key ∧ s.row = r
  caught : ¬p.puller → p.activeKey ≠ none → p.lastDv = some w.dataVersion → Settled p →
    ∀ r ∈ w.store, r.seq ≤ p.newcur

structure Sound (w : PushWorld) : Prop where
  seqs : w.store.Pairwise fun a b => a.seq ≠ b.seq
  readable : ∀ r ∈ w.store, r.content.isSome
  good : ∀ p ∈ w.processes, w.Good p

theorem Sound.act {f : PushProcess → Option PushProcess} (h : w.Sound)
    (hf : ∀ p ∈ w.processes[i]?, ∀ p', w.Good p → f p = some p' → w.Good p')
    (hs : w.act i f = some w') : w'.Sound := by
  obtain ⟨p, hp, hs⟩ := Option.bind_eq_some_iff.mp hs
  obtain ⟨p', hfp, rfl⟩ := Option.map_eq_some_iff.mp hs
  have hgood := hf p hp p' (h.good p (List.mem_of_getElem? hp)) hfp
  refine { h with good := fun q hq => ?_ }
  rcases List.mem_or_eq_of_mem_set hq with hq | rfl
  · exact { h.good q hq with }
  · exact { hgood with }

theorem newcur_of_hand (h : p.hand = []) : p.newcur = p.from_ := by
  rw [PushProcess.newcur, h]
  rfl

/-! ## Rounds -/

/-- A process without a batch goes on to another place without one. -/
theorem Good.goto (h : w.Good p) {pc : PushPc} (hhand : p.hand = [])
    (hnone : ({ p with pc } : PushProcess).hand = []) (hat : At { p with pc })
    (hsettled : ¬p.puller → p.activeKey ≠ none → p.lastDv = some w.dataVersion →
      Settled { p with pc } → Settled p) : w.Good { p with pc } := by
  have hnewcur : ({ p with pc } : PushProcess).newcur = p.newcur :=
    (newcur_of_hand hnone).trans (newcur_of_hand hhand).symm
  exact { h with
    at_ := hat
    sorted := by rw [hnone]; exact .nil
    ahead := by rw [hnone]; exact fun b hb => absurd hb List.not_mem_nil
    passed := by
      rw [hnewcur, hnone, ← hhand]
      exact h.passed
    caught := fun hpuller hkey hdv hset => by
      rw [hnewcur]
      exact h.caught hpuller hkey hdv (hsettled hpuller hkey hdv hset) }

theorem Good.tick (h : w.Good p) (hload : ∀ key ∈ p.topic.scopeKey, ∀ s ∈ p.sent, s.key = key →
    some key ≠ p.activeKey → s.row.seq ≤ w.loadCursor p key) (hs : w.tick p = some p') :
    w.Good p' := by
  obtain ⟨htop, hs⟩ := Option.ite_none_right_eq_some.mp hs
  dsimp only at hs
  have hhand : p.hand = [] := by rw [PushProcess.hand, htop]
  split at hs
  · rename_i hchanged
    cases hs
    exact { h with
      at_ := ⟨rfl, rfl⟩
      sorted := .nil
      ahead := fun b hb => absurd hb List.not_mem_nil
      -- the topic is begun anew, with nothing passed and no version vouched for
      below := fun s hs hkey => by
        have hle := hload s.key hkey s hs rfl (hkey ▸ hchanged)
        dsimp only at hkey ⊢
        rw [PushProcess.from_, hkey]
        exact hle
      passed := fun key hkey r hr hof hlt hle => absurd hlt (not_lt.mpr hle)
      caught := fun _ _ _ hsettled => hsettled.elim }
  · rename_i hsame
    cases hs
    have hlocked : w.Good { p with puller := p.puller || !w.processes.any (·.puller) } :=
      { h with caught := fun hpuller => h.caught fun hp => hpuller (by simp [hp]) }
    refine hlocked.goto hhand rfl ⟨rfl, not_not.mp hsame⟩ fun _ _ _ _ => ?_
    rw [Settled, htop]
    trivial

theorem hand_eq_nil {pc : PushPc} (h : p.pc = pc)
    (hpc : ∀ key scope rows, pc ≠ .batch key scope rows) : p.hand = [] := by
  rw [PushProcess.hand, h]
  cases pc with
  | batch key scope rows => exact absurd rfl (hpc key scope rows)
  | _ => rfl

theorem Good.receive (h : w.Good p) {ok : Bool} (hs : receive p ok = some p') : w.Good p' := by
  unfold PushWorld.receive at hs
  split at hs
  · rename_i scope changed hpc
    obtain ⟨hpuller, hs⟩ := Option.ite_none_right_eq_some.mp hs
    cases hs
    have hhand := hand_eq_nil hpc nofun
    have hat := h.at_
    rw [At, hpc] at hat
    cases ok with
    | true => exact h.goto hhand rfl hat fun _ _ _ hset => hset.elim
    | false => exact h.goto hhand rfl trivial fun hmonitor => absurd hpuller hmonitor
  · cases hs

/-- A monitor that sees no change stays; else a read is due. -/
theorem Good.gate (h : w.Good p) {ok : Bool} (hs : w.gate p ok = some p') : w.Good p' := by
  unfold PushWorld.gate at hs
  split at hs
  · rename_i scope changed hpc
    obtain ⟨-, hs⟩ := Option.ite_none_left_eq_some.mp hs
    have hhand := hand_eq_nil hpc nofun
    have hat := h.at_
    rw [At, hpc] at hat
    have hopen : w.Good { p with pc := .reading scope } :=
      h.goto hhand rfl hat fun _ _ _ hset => hset.elim
    split at hs
    · cases hs
      exact hopen
    · rename_i hchanged
      split at hs
      · cases hs
        exact hopen
      · split at hs
        · cases hs
          exact { hopen with
            dv := by
              rintro v ⟨⟩
              exact le_rfl
            caught := fun _ _ _ hset => hset.elim }
        · cases hs
          refine h.goto hhand rfl trivial fun _ _ _ _ => ?_
          cases changed with
          | true => exact absurd rfl hchanged
          | false => rw [Settled, hpc]; trivial
  · cases hs

theorem Good.read (h : w.Good p) (hw : w.Sound) {ok : Bool}
    (hok : p.puller ∨ p.activeKey = none ∨ p.lastDv ≠ some w.dataVersion
      ∨ ok ∧ (w.store.filter (p.from_ < ·.seq)).length ≤ 256)
    (hs : w.read p ok = some p') : w.Good p' := by
  unfold PushWorld.read at hs
  split at hs
  · rename_i scope hpc
    have hhand := hand_eq_nil hpc nofun
    have hat := h.at_
    rw [At, hpc] at hat
    obtain ⟨htopic, hactive⟩ := hat
    split at hs
    · split at hs
      · rename_i hunset
        cases hs
        refine h.goto hhand rfl trivial fun _ hkey => ?_
        exact absurd (hactive.symm.trans hunset) hkey
      · rename_i key hkey
        cases hs
        -- what the cursor is to pass is in the batch
        have hrows {r : StoreRow} (hr : r ∈ w.store) (hlt : p.from_ < r.seq)
            (hle : r.seq ≤ (StoreRow.messagesAfterSeq w.store p.from_ 256).foldl
              (fun cur m => max cur m.seq) p.from_) :
            r ∈ StoreRow.messagesAfterSeq w.store p.from_ 256 := by
          rcases foldl_seq_mem (StoreRow.messagesAfterSeq w.store p.from_ 256) p.from_
            with heq | ⟨b, hb, heq⟩
          · exact absurd (heq ▸ hle) (not_le.mpr hlt)
          · exact StoreRow.mem_messagesAfterSeq_of_le hw.seqs hr hlt (hw.readable r hr) hb
              (heq ▸ hle)
        exact { h with
          at_ := ⟨htopic, hkey, hactive.symm.trans hkey⟩
          sorted := StoreRow.pairwise_messagesAfterSeq hw.seqs
          ahead := fun b hb => (StoreRow.mem_messagesAfterSeq hb).2
          passed := fun key hkey r hr hof hlt hle => by
            by_cases hfrom : r.seq ≤ p.from_
            · rcases h.passed key hkey r hr hof hlt (newcur_of_hand hhand ▸ hfrom) with hmem | hsent
              · rw [hhand] at hmem
                cases hmem
              · exact .inr hsent
            · exact .inl (hrows hr (not_le.mp hfrom) hle)
          caught := fun hmonitor hkey hdv _ r hr => by
            rcases hok with hpuller | hnone | hstale | ⟨-, hlen⟩
            · exact absurd hpuller hmonitor
            · exact absurd hnone hkey
            · exact absurd hdv hstale
            · by_cases hfrom : r.seq ≤ p.from_
              · exact hfrom.trans le_foldl_seq
              · exact seq_le_foldl (StoreRow.mem_messagesAfterSeq_of_length hr (not_le.mp hfrom)
                  (hw.readable r hr) hlen) }
    · rename_i hfailed
      cases hs
      refine h.goto hhand rfl trivial fun hmonitor hkey hdv _ => ?_
      rcases hok with hpuller | hnone | hstale | ⟨hread, -⟩
      · exact absurd hpuller hmonitor
      · exact absurd hnone hkey
      · exact absurd hdv hstale
      · exact absurd hread hfailed
  · cases hs

/-- What was in hand and is of the topic is sent, and the cursor is where the batch ended. -/
theorem Good.deliver (h : w.Good p) (hs : w.deliver p = some p') : w.Good p' := by
  unfold PushWorld.deliver at hs
  split at hs
  · rename_i key scope rows hpc
    cases hs
    have hhand : p.hand = rows := by rw [PushProcess.hand, hpc]
    have hat := h.at_
    rw [At, hpc] at hat
    obtain ⟨htopic, hkey, hactive⟩ := hat
    have hfrom : (if p.newcur ≠ p.from_ then some p.newcur else p.cursor).getD p.sessionFloor
        = p.newcur := by
      split
      · rfl
      · rename_i hsame
        exact (not_not.mp hsame).symm
    have hle : p.from_ ≤ p.newcur := le_foldl_seq
    have hout {m : StoreRow} (hm : m ∈ rows.filter fun m => !w.own m && w.inScope scope m) :
        m ∈ rows ∧ w.inScope scope m := by
      obtain ⟨hmem, hsend⟩ := List.mem_filter.mp hm
      exact ⟨hmem, (Bool.and_eq_true_iff.mp hsend).2⟩
    exact { h with
      at_ := trivial
      sorted := .nil
      ahead := fun b hb => absurd hb List.not_mem_nil
      topic := fun s hs => by
        rcases List.mem_append.mp hs with hs | hs
        · exact h.topic s hs
        · obtain ⟨m, hm, rfl⟩ := List.mem_map.mp hs
          exact htopic ▸ (hout hm).2
      once := by
        rw [List.map_append, List.map_map]
        refine List.nodup_append.mpr ⟨h.once, ?_, ?_⟩
        · refine ((hhand ▸ h.sorted).filter _).map _ fun a b hlt heq => ?_
          have hseq : a.seq = b.seq := congrArg (fun k => k.2.seq) heq
          exact absurd hlt (not_lt.mpr hseq.ge)
        -- what was sent before is at or below the cursor, and what is in hand above it
        · rintro k hk k' hk' rfl
          obtain ⟨s, hs, rfl⟩ := List.mem_map.mp hk
          obtain ⟨m, hm, heq⟩ := List.mem_map.mp hk'
          have hskey : s.key = key := (congrArg Prod.fst heq).symm
          have hseq : s.row.seq = m.seq := (congrArg (fun k => k.2.seq) heq).symm
          have hbelow := h.below s hs (hskey ▸ hactive)
          have hahead := h.ahead m (hhand ▸ (hout hm).1)
          exact absurd (hseq ▸ hbelow) (not_le.mpr hahead)
      below := fun s hs hskey => by
        refine le_of_le_of_eq ?_ hfrom.symm
        rcases List.mem_append.mp hs with hs | hs
        · exact (h.below s hs hskey).trans hle
        · obtain ⟨m, hm, rfl⟩ := List.mem_map.mp hs
          exact seq_le_foldl (hhand ▸ (hout hm).1)
      passed := fun key' hkey' r hr hof hlt hler => by
        cases hactive.symm.trans hkey'
        refine .inr ?_
        rcases h.passed key hkey' r hr hof hlt (hfrom ▸ hler) with hmem | ⟨s, hs, hsent⟩
        · refine ⟨⟨key, p.topic, r⟩, List.mem_append_right _ (List.mem_map_of_mem ?_), rfl, rfl⟩
          refine List.mem_filter.mpr ⟨hhand ▸ hmem, ?_⟩
          simp [inScope_of_key hkey hof, PushWorld.own, hof.1]
        · exact ⟨s, List.mem_append_left _ hs, hsent⟩
      caught := fun hmonitor hactive' hdv _ r hr => by
        refine le_of_le_of_eq ?_ hfrom.symm
        exact h.caught hmonitor hactive' hdv (by rw [Settled, hpc]; trivial) r hr }
  · cases hs

/-! ## Writes -/

/-- After a write no version is up to date. -/
theorem Good.write {store : List StoreRow} (h : w.Good p)
    (hstore : ∀ r ∈ store, r ∈ w.store ∨ ∀ key ∈ p.activeKey, w.OfTopic key r → p.start < r.seq →
      p.newcur < r.seq) : (w.write store).Good p :=
  { h with
    dv := fun v hv => (h.dv v hv).trans (Nat.le_succ _)
    passed := fun key hkey r hr hof hlt hle => by
      rcases hstore r hr with hold | hnew
      · exact h.passed key hkey r hold hof hlt hle
      · exact absurd hle (not_le.mpr (hnew key hkey hof hlt))
    caught := fun _ _ hdv => absurd (h.dv _ hdv) (Nat.not_succ_le_self _) }

theorem Sound.write {store : List StoreRow} (h : w.Sound)
    (hseqs : store.Pairwise fun a b => a.seq ≠ b.seq)
    (hstore : ∀ r ∈ store, r ∈ w.store ∨ r.content.isSome ∧ ∀ p ∈ w.processes, ∀ key ∈ p.activeKey,
      w.OfTopic key r → p.start < r.seq → p.newcur < r.seq) : (w.write store).Sound where
  seqs := hseqs
  readable r hr := (hstore r hr).elim (h.readable r) And.left
  good p hp := (h.good p hp).write fun r hr => (hstore r hr).imp_right fun hnew => hnew.2 p hp

theorem good_begin (topic : TopicScope) : w.Good (w.begin_ topic) where
  dv := nofun
  at_ := trivial
  sorted := .nil
  ahead _ hb := absurd hb List.not_mem_nil
  topic _ hs := absurd hs List.not_mem_nil
  once := .nil
  below _ hs := absurd hs List.not_mem_nil
  passed := nofun
  caught _ hkey := absurd rfl hkey

theorem Sound.step {l : PushLabel} (h : w.Sound) (hok : w.Undisturbed l) (hs : w.step l = some w') :
    w'.Sound := by
  cases l with
  | start topic =>
      cases hs
      refine { h with good := fun q hq => ?_ }
      rcases List.mem_append.mp hq with hq | hq
      · exact { h.good q hq with }
      · cases List.mem_singleton.mp hq
        exact { good_begin (w := w) topic with }
  | stop i =>
      cases hs
      exact { h with good := fun q hq => { h.good q (List.mem_of_mem_eraseIdx hq) with } }
  | setTopic i topic =>
      refine h.act (fun p hp p' hgood hset => ?_) hs
      cases hset
      refine { hgood with at_ := ?_ }
      rcases hok p hp with htop | rfl
      · rw [At, htop]
        trivial
      · exact hgood.at_
  | tick i => exact h.act (fun p hp p' hgood => hgood.tick (hok p hp)) hs
  | receive i ok => exact h.act (fun p hp p' hgood => hgood.receive) hs
  | gate i ok => exact h.act (fun p hp p' hgood => hgood.gate) hs
  | read i ok => exact h.act (fun p hp p' hgood => hgood.read h (hok p hp)) hs
  | deliver i saved =>
      obtain ⟨p, -, hs⟩ := Option.bind_eq_some_iff.mp hs
      have hsaved : ({ w with cursors := w.saveCursor p saved } : PushWorld).Sound :=
        { h with good := fun q hq => { h.good q hq with } }
      exact hsaved.act (fun p hp p' hgood => hgood.deliver) hs
  | save r =>
      obtain ⟨store, hsave, rfl⟩ := Option.map_eq_some_iff.mp hs
      obtain ⟨hnew, hsave⟩ := Option.ite_none_left_eq_some.mp hsave
      cases hsave
      refine h.write (List.pairwise_cons.mpr ⟨fun b hb heq => hnew ?_, h.seqs.filter _⟩) ?_
      · exact List.any_eq_true.mpr ⟨b, (List.mem_filter.mp hb).1, decide_eq_true heq.symm⟩
      · intro x hx
        rcases List.mem_cons.mp hx with rfl | hx
        · exact .inr hok
        · exact .inl (List.mem_filter.mp hx).1
  | remove id =>
      cases hs
      exact h.write (h.seqs.filter _) fun x hx => .inl (List.mem_filter.mp hx).1
  | touch =>
      cases hs
      exact h.write h.seqs fun x hx => .inl hx

/-! ## Runs -/

/-- A process that only waits has read all there is. -/
theorem Good.pushed (h : w.Good p) (hw : w.Sound) : w.Pushed p where
  topic := h.topic
  once := h.once
  all := by
    rintro ⟨htop, -, hidle⟩ key hkey r hr hof hlt
    have hhand : p.hand = [] := hand_eq_nil htop nofun
    -- a puller would read what is above its cursor, and a monitor's version is of what it has read
    have hle : r.seq ≤ p.newcur := by
      split at hidle
      · rw [newcur_of_hand hhand]
        exact StoreRow.le_of_messagesAfterSeq_eq_nil hw.readable hr hidle
      · rename_i hmonitor
        refine h.caught hmonitor (fun hnone => ?_) hidle (by rw [Settled, htop]; trivial) r hr
        rw [hnone] at hkey
        cases hkey
    rcases h.passed key hkey r hr hof hlt hle with hmem | hsent
    · rw [hhand] at hmem
      cases hmem
    · exact hsent

/-- No process has begun yet. -/
structure Fresh (w : PushWorld) : Prop where
  seqs : w.store.Pairwise fun a b => a.seq ≠ b.seq
  readable : ∀ r ∈ w.store, r.content.isSome
  processes : w.processes = []

end PushWorld

end Paranoia
