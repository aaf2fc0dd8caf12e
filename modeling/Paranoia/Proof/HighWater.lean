import Paranoia.Proof.History

/-!
# Numbers after a deletion

The greatest live number falls when the tail of a dialogue is deleted, cursors do
not, and a device issues numbers from its own counter, which knows only what that
device has sent or received. A device that never saw the deleted tail therefore
reuses its numbers, below the cursors of the other party
(`cursor_above_reused_number`).

What a cursor can reach is bounded by the history, though: by the greatest number
ever accepted, with the body it announces. `Receive.Within` says so of a running
`receive`, `marked_reachable` of every cursor, and so a displayable push above
everything ever accepted is above every cursor (`aboveCursors_reachable`).
-/

namespace Paranoia

variable {κ π : Type} {n : Nat}

namespace Receive

/-- What the cursor can still be set to at this point satisfies `R`. -/
def PointWithin (target : RawPacket π → Nat) (R : Nat → Prop) : Point π → Prop
  | .scanned runs _ => ∀ run ∈ runs, R run.2
  | .pull _ stop todo => R stop ∧ ∀ run ∈ todo, R run.2
  | .skip batchEnd stop todo => R batchEnd ∧ R stop ∧ ∀ run ∈ todo, R run.2
  | .packet pkt queue batchEnd stop todo =>
      (∀ q ∈ pkt :: queue, R (target q)) ∧ R batchEnd ∧ R stop ∧ ∀ run ∈ todo, R run.2
  | .advance to_ _ queue batchEnd stop todo =>
      R to_ ∧ (∀ q ∈ queue, R (target q)) ∧ R batchEnd ∧ R stop ∧ ∀ run ∈ todo, R run.2
  | _ => True

/-- Everything the call can set the cursor to satisfies `R`. -/
structure Within (target : RawPacket π → Nat) (R : Nat → Prop) (r : Receive π) : Prop where
  runs : ∀ run ∈ r.allRuns, R run.2
  last : R r.lastSeqTotal
  cursor : R r.cursor
  point : PointWithin target R r.point

variable {target : RawPacket π → Nat} {R R' : Nat → Prop} {r : Receive π}

theorem Within.mono (h : r.Within target R) (hR : ∀ s, R s → R' s) : r.Within target R' where
  runs run hr := hR _ (h.runs run hr)
  last := hR _ h.last
  cursor := hR _ h.cursor
  point := by
    have hp := h.point
    have hruns : ∀ runs : List (Nat × Nat), (∀ run ∈ runs, R run.2) → ∀ run ∈ runs, R' run.2 :=
      fun runs h run hr => hR _ (h run hr)
    cases hpt : r.point with
    | scanned runs truncated => exact hruns _ (by simpa [PointWithin, hpt] using hp)
    | pull seq stop todo =>
        rw [hpt] at hp
        exact ⟨hR _ hp.1, hruns _ hp.2⟩
    | skip batchEnd stop todo =>
        rw [hpt] at hp
        exact ⟨hR _ hp.1, hR _ hp.2.1, hruns _ hp.2.2⟩
    | packet pkt queue batchEnd stop todo =>
        rw [hpt] at hp
        exact ⟨fun q hq => hR _ (hp.1 q hq), hR _ hp.2.1, hR _ hp.2.2.1, hruns _ hp.2.2.2⟩
    | advance to_ own queue batchEnd stop todo =>
        rw [hpt] at hp
        exact ⟨hR _ hp.1, fun q hq => hR _ (hp.2.1 q hq), hR _ hp.2.2.1, hR _ hp.2.2.2.1,
          hruns _ hp.2.2.2.2⟩
    | _ => trivial

theorem within_start (h0 : R 0) : (start : Receive π).Within target R :=
  ⟨by simp [start], h0, h0, trivial⟩

theorem within_nextRun (hr : ∀ run ∈ r.allRuns, R run.2) (hl : R r.lastSeqTotal) (hc : R r.cursor)
    (todo : List (Nat × Nat)) (ht : ∀ run ∈ todo, R run.2) :
    (r.nextRun todo).Within target R := by
  induction todo with
  | nil => exact ⟨hr, hl, hc, trivial⟩
  | cons run todo ih =>
      have ht' : ∀ q ∈ todo, R q.2 := fun q hq => ht q (List.mem_cons_of_mem _ hq)
      rw [nextRun]
      split
      · exact ih ht'
      · split
        · exact ⟨hr, hl, hc, ht run List.mem_cons_self, ht'⟩
        · exact ih ht'

theorem within_nextBatch (hr : ∀ run ∈ r.allRuns, R run.2) (hl : R r.lastSeqTotal)
    (hc : R r.cursor) {seq stop : Nat} {todo : List (Nat × Nat)} (hs : R stop)
    (ht : ∀ run ∈ todo, R run.2) : (r.nextBatch seq stop todo).Within target R := by
  unfold nextBatch
  split
  · exact ⟨hr, hl, hc, hs, ht⟩
  · exact within_nextRun hr hl hc todo ht

theorem within_onMap {m : MapResult} (h : r.Within target R) (hm : ∀ run ∈ m.runs, R run.2)
    (hl : R m.lastSeq) : (r.onMap m).Within target R := by
  have hmax : R (max r.lastSeqTotal m.lastSeq) := by
    rcases Nat.le_total r.lastSeqTotal m.lastSeq with hle | hle
    · rwa [Nat.max_eq_right hle]
    · rw [Nat.max_eq_left hle]
      exact h.last
  unfold onMap
  dsimp only
  cases Runs.lastEnd? m.runs with
  | none => exact ⟨h.runs, hmax, h.cursor, trivial⟩
  | some lastEnd =>
      refine ⟨fun run hrun => ?_, hmax, h.cursor, ?_⟩
      · rcases List.mem_append.mp hrun with hrun | hrun
        · exact h.runs run hrun
        · exact hm run hrun
      · dsimp only
        cases m.truncated <;> trivial

end Receive

/-- A move keeps to what is stored on the server. -/
theorem RxMove.within [Aead κ π] {c : Client κ} {env : Env} {ps : PacketStore π}
    {st st' : LocalStore} {r r' : Receive π} {notices : List (Notice π)} {R : Nat → Prop}
    (h : RxMove c env ps st r st' r' notices) (hw : r.Within c.target R)
    (hc : R (st.getLastPulledSeq c.key)) (h0 : R 0) (hdown : ∀ s t, R s → t ≤ s → R t)
    (hlive : ∀ pkt ∈ ps.packets c.key, R pkt.seq ∧ R (c.target pkt)) :
    r'.Within c.target R ∧ R (st'.getLastPulledSeq c.key) := by
  have hseq : ∀ s ∈ ps.live c.key, R s := by
    intro s hs
    obtain ⟨data, hget⟩ := PacketStore.mem_live.mp hs
    exact (hlive ⟨s, data⟩ (PacketStore.mem_packets.mpr hget)).1
  have hset : ∀ seq, R seq → R ((st.setLastPulledSeq c.key seq).getLastPulledSeq c.key) := by
    intro seq hs
    rcases LocalStore.getLastPulledSeq_setLastPulledSeq st c.key seq with h' | h'
    · rw [h']
      exact hc
    · exact hdown _ _ hs h'
  have hp := hw.point
  cases h with
  | @scan after hpt =>
      refine ⟨⟨hw.runs, hw.last, hw.cursor, ?_⟩, hc⟩
      intro run hrun
      by_cases hafter : after + 1 < u64Size
      · have hscan := PacketStore.mapRuns_spec ps c.key 0 (by decide : 0 < mapMaxRuns) hafter
        have hcov := hscan.sound run.2 ⟨run, hrun, hscan.ascending.proper run hrun, Nat.le_refl _⟩
        exact hseq _ (List.mem_filter.mp hcov.1).1
      · have hnone : checkedAdd after 1 = none := by
          unfold checkedAdd
          rw [if_neg hafter]
        rw [PacketStore.mapRuns, hnone] at hrun
        exact absurd hrun List.not_mem_nil
  | lastSeq hpt =>
      rw [hpt] at hp
      refine ⟨Receive.within_onMap hw hp ?_, hc⟩
      rcases PacketStore.lastSeq_mem_or_zero ps c.key with hm | hz
      · exact hseq _ hm
      · rw [hz]
        exact h0
  | load hpt =>
      have hsorted : ∀ run ∈ r.allRuns.insertionSort (fun a b => a.1 ≤ b.1), R run.2 :=
        fun run hrun => hw.runs run ((List.mem_insertionSort _).mp hrun)
      exact ⟨Receive.within_nextRun
        (r := { r with allRuns := _, cursor := st.getLastPulledSeq c.key }) hsorted hw.last hc _
        hsorted, hc⟩
  | @pull seq stop todo packets hpt hpull =>
      rw [hpt] at hp
      have hbatch : R (Receive.batchEnd seq stop) := hdown _ _ hp.1 (Nat.min_le_right _ _)
      refine ⟨?_, hc⟩
      have hq : ∀ q ∈ packets, R (c.target q) := by
        intro q hq
        have hget := ((World.mem_batch hpull).mp hq).2.2
        exact (hlive q (PacketStore.mem_packets.mpr hget)).2
      unfold Receive.onPull
      split
      · exact ⟨hw.runs, hw.last, hw.cursor, hbatch, hp.1, hp.2⟩
      · rename_i pkt queue hsort
        refine ⟨hw.runs, hw.last, hw.cursor, fun q hq' => ?_, hbatch, hp.1, hp.2⟩
        rw [← hsort] at hq'
        exact hq q ((List.mem_insertionSort _).mp hq')
  | @skip batchEnd stop todo hpt =>
      rw [hpt] at hp
      exact ⟨Receive.within_nextBatch (r := { r with cursor := batchEnd }) hw.runs hw.last hp.1 hp.2.1
        hp.2.2, hset _ hp.1⟩
  | @packet pkt queue batchEnd stop todo st' target own skipUntil counted messages hpt hstep =>
      rw [hpt] at hp
      have htarget : target = c.target pkt := by
        unfold Client.target
        cases hstep with
        | undecryptable hdec => rw [hdec]
        | own hdec hto => rw [hdec]; dsimp only; rw [hto]
        | processed hdec hto => rw [hdec]; dsimp only; rw [hto]
      refine ⟨⟨hw.runs, hw.last, hw.cursor, ?_, fun q hq => ?_, hp.2.1, hp.2.2.1, hp.2.2.2⟩, ?_⟩
      · rw [htarget]
        exact hp.1 pkt List.mem_cons_self
      · exact hp.1 q (List.mem_cons_of_mem _ ((Receive.dropSkipped_sublist _ _).subset hq))
      · rw [LocalStore.getLastPulledSeq_congr (congrFun hstep.dialogueState c.key)]
        exact hc
  | @advance target own queue batchEnd stop todo messages hpt =>
      rw [hpt] at hp
      refine ⟨?_, hset _ hp.1⟩
      unfold Receive.nextPacket
      cases queue with
      | nil =>
          exact Receive.within_nextBatch (r := { r with cursor := target, messages := messages })
            hw.runs hw.last hp.1 hp.2.2.2.1 hp.2.2.2.2
      | cons pkt queue =>
          exact ⟨hw.runs, hw.last, hp.1, hp.2.1, hp.2.2.1, hp.2.2.2.1, hp.2.2.2.2⟩
  | bump => exact ⟨⟨hw.runs, hw.last, hw.last, trivial⟩, hset _ hw.last⟩
  | stay => exact ⟨⟨hw.runs, hw.last, hw.cursor, trivial⟩, hc⟩
  | sweep => exact ⟨⟨hw.runs, hw.last, hw.cursor, trivial⟩, hc⟩
  | tombstones => exact ⟨⟨hw.runs, hw.last, hw.cursor, trivial⟩, hc⟩
  | delete => exact ⟨⟨hw.runs, hw.last, hw.cursor, trivial⟩, hc⟩

namespace World

section Defs

variable [Aead κ π] (cfg : Setup κ n) (w : World π n)

/-- No higher than a number accepted in the dialogue, or the end of the body it announces. -/
def Marked (d : Fin n) (s : Nat) : Prop :=
  s = 0 ∨ ∃ a ∈ w.accepted, a.2.dialogue = cfg.key
    ∧ s ≤ (cfg.device d).target ⟨a.2.seq, a.2.payload⟩

/-- Every cursor stays below the high-water mark of the history. -/
structure HighWater : Prop where
  stored : Stored cfg w
  cursor : ∀ d, w.Marked cfg d (w.cursor cfg d)
  running : ∀ d, ∀ rx ∈ w.receiving d, rx.run.Within (cfg.device d).target (w.Marked cfg d)

variable [DecidableEq π]

/-- A displayable push that is accepted lies above the cursors of the other party's devices. -/
def AboveCursors (l : Label π n) : Prop :=
  ∀ a ∈ w.incoming l, w.Accepts a.2 → a.2.dialogue = cfg.key → w.Displays cfg a.2 = true →
    ∀ d, (cfg.device d).username ≠ a.2.sender → w.cursor cfg d < a.2.seq

/-- An honest step; a displayable push that is accepted lies above all that was ever accepted and
above the bodies announced there. -/
def RisingStep (l : Label π n) : Prop :=
  l.isRelay = false ∧ ∀ a ∈ w.incoming l, w.Accepts a.2 → a.2.dialogue = cfg.key →
    w.Displays cfg a.2 = true → 0 < a.2.seq ∧ ∀ d, (cfg.device d).username ≠ a.2.sender →
      ∀ b ∈ w.accepted, b.2.dialogue = cfg.key →
        (cfg.device d).target ⟨b.2.seq, b.2.payload⟩ < a.2.seq

instance (l : Label π n) : Decidable (w.RisingStep cfg l) :=
  inferInstanceAs (Decidable (_ ∧ _))

end Defs

variable [Aead κ π] {cfg : Setup κ n} {w w' : World π n} {l : Label π n}

theorem le_target (c : Client κ) (pkt : RawPacket π) : pkt.seq ≤ c.target pkt := by
  unfold Client.target
  split
  · exact Nat.le_refl _
  · rename_i inner _
    split
    · rename_i hto
      cases hc : inner.content with
      | fileHeader =>
          rw [hc] at hto
          simp only [Receive.advanceTo, Option.map_eq_some_iff, Prod.mk.injEq] at hto
          obtain ⟨bodyEnd, hb, rfl, _⟩ := hto
          have := (checkedAdd_eq_some.mp hb).1
          omega
      | _ =>
          rw [hc] at hto
          cases hto
          exact Nat.le_refl _
    · exact Nat.le_refl _

theorem Marked.mono (hc : Continues w w') {d : Fin n} {s : Nat} (h : w.Marked cfg d s) :
    w'.Marked cfg d s :=
  h.imp_right (fun ⟨a, ha, h⟩ => ⟨a, hc.accepted ha, h⟩)

theorem highWater_init : HighWater cfg (init cfg : World π n) where
  stored _ hp := absurd hp List.not_mem_nil
  cursor _ := Or.inl rfl
  running _ _ hrx := absurd hrx List.not_mem_nil

theorem highWater_step (h : StepCase cfg w l w') (hrelay : l.isRelay = false)
    (hi : HighWater cfg w) : HighWater cfg w' := by
  have hcont := continues_step h
  have hkey : ∀ d, (cfg.device d).key = cfg.key := cfg.shared
  have hmove : ∀ d, ∀ rx ∈ w.receiving d, ∀ rx', Moves cfg w l d rx rx' w' →
      rx'.run.Within (cfg.device d).target (w.Marked cfg d)
        ∧ w.Marked cfg d (w'.cursor cfg d) := by
    intro d rx hrx rx' hm
    obtain ⟨env, notices, job, hmv, _⟩ := hm.move
    have := hmv.within (hi.running d rx hrx) (by rw [hkey]; exact hi.cursor d) (Or.inl rfl)
      (fun s t hs hle => ?_) (fun pkt hp => ?_)
    · rwa [hkey] at this
    · rcases hs with rfl | ⟨a, ha, hd, hs⟩
      · exact Or.inl (Nat.le_zero.mp hle)
      · exact Or.inr ⟨a, ha, hd, Nat.le_trans hle hs⟩
    · rw [hkey] at hp
      obtain ⟨a, ha, hd, rfl⟩ := hi.stored pkt hp
      exact ⟨Or.inr ⟨a, ha, hd, le_target _ _⟩, Or.inr ⟨a, ha, hd, Nat.le_refl _⟩⟩
  refine ⟨stored_step h hi.stored, fun d => ?_, fun d rx' hrx' => ?_⟩
  · rcases cursor_step h d with hcur | ⟨rx, hrx, rx', hm⟩
    · rw [hcur]
      exact (hi.cursor d).mono hcont
    · exact (hmove d rx hrx rx' hm).2.mono hcont
  · rcases receiving_step h hrelay hrx' with hold | rfl | ⟨rx, hrx, hm⟩
    · exact (hi.running d rx' hold).mono (fun _ hs => hs.mono hcont)
    · exact Receive.within_start (Or.inl rfl)
    · exact (hmove d rx hrx rx' hm).1.mono (fun _ hs => hs.mono hcont)

theorem highWater_reachable {ok : World π n → Label π n → Prop}
    (hok : ∀ w l, ok w l → l.isRelay = false) (hr : Lts.Reach (step cfg) ok (init cfg) w) :
    HighWater cfg w :=
  hr.invariant highWater_init
    (fun _ _ _ _ hi h hs => highWater_step (step_inv hs) (hok _ _ h) hi)

variable [DecidableEq π]

/-- **Displayable pushes land above every cursor of the other party**, in any run where they land
above everything accepted before. -/
theorem aboveCursors_reachable
    (hr : Lts.Reach (step cfg) (fun w l => w.RisingStep cfg l) (init cfg) w)
    (hok : w.RisingStep cfg l) : w.AboveCursors cfg l := by
  intro a hin hacc hd hdisp d hne
  have hi := highWater_reachable (fun _ _ h => h.1) hr
  obtain ⟨hpos, habove⟩ := hok.2 a hin hacc hd hdisp
  rcases hi.cursor d with hz | ⟨b, hb, hbd, hle⟩
  · rw [hz]
    exact hpos
  · exact Nat.lt_of_le_of_lt hle (habove d hne b hb hbd)

/-- Alice sends a message, Bob receives it, and it is deleted. -/
def deleted : List (Label Sealed 3) :=
  Sample.sends 0 0 "m1" ++ [.start 1 .receive, .scan 1, .lastSeq 1] ++ Sample.steps 1 1 ++
    [.pull 1] ++ Sample.steps 1 5 ++ [.remove 0 1]

/-- The same device sends again. -/
theorem aboveCursors_deleted :
    (Lts.execWhile (step Sample.setup) (fun w l => w.RisingStep Sample.setup l) (init Sample.setup)
      (deleted ++ [.start 0 (Sample.text "m2"), .notified 2 false,
        .localStep 2 (Sample.env "m2")])).isSome = true
    ∧ ((Lts.execWhile (step Sample.setup) (fun w l => w.RisingStep Sample.setup l)
        (init Sample.setup) (deleted ++ [.start 0 (Sample.text "m2"), .notified 2 false,
          .localStep 2 (Sample.env "m2")])).getD (init Sample.setup)).AboveCursors Sample.setup
            (.push 2) :=
  ⟨by decide, aboveCursors_reachable (Lts.reach_getD (by decide)) (by decide)⟩

/-! ## A number used twice -/

/-- Alice's other device, which knows nothing of the deleted message, sends at `1` again, where
Bob's cursor stands. -/
theorem cursor_above_reused_number :
    ¬ ∀ (w : World Sealed 3) (l : Label Sealed 3), Lts.Reach (step Sample.setup)
      (fun _ l => l.isRelay = false ∧ l.isRaw = false) (init Sample.setup) w →
      w.AboveCursors Sample.setup l := by
  intro h
  have hrun : (Lts.execWhile (step Sample.setup)
      (fun _ l => l.isRelay = false ∧ l.isRaw = false) (init Sample.setup)
      (deleted ++ [.start 2 (Sample.text "m2"), .notified 2 false,
        .localStep 2 (Sample.env "m2")])).isSome = true := by decide
  have hlt := h _ (.push 2) (Lts.reach_getD hrun)
    (some 2, ⟨"alice", "bob", 1, ⟨7, 0, ⟨"m2", 0, "alice", .text "m2", none⟩⟩, "alice"⟩)
    (by decide) (by decide) (by decide) (by decide) 1 (by decide)
  revert hlt
  decide

end World

end Paranoia
