import Paranoia.Session
import Paranoia.Spec
import Paranoia.Proof.History
import Paranoia.Proof.Status

/-!
# The sweep at the end of `receive`

The map a `receive` collects is older than the rows it is compared with in the end. A
number is missed once its page is scanned and it was not live then, and doomed on a device
if a running `receive` has missed it while a confirmed message holds it. The sweep removes
exactly what is doomed, so it takes a live message only if the number became live, or the
message confirmed, after the page was scanned.
-/

namespace Paranoia

/-! ## The binary search -/

/-- If some run from `base` on contains the number, the search finds it. -/
theorem searchRuns_of_index {runs : List (Nat × Nat)} (h : Runs.Ascending runs) {seq i : Nat}
    {r : Nat × Nat} (hr : runs[i]? = some r) (hfirst : r.1 ≤ seq) (hlast : seq ≤ r.2) :
    ∀ (fuel base size : Nat), size ≤ fuel + 1 → base + size ≤ runs.length → base ≤ i →
      i < base + size → searchRuns runs seq fuel base size = true := by
  have hat : (runs[i]?).any (fun r => r.1 ≤ seq && seq ≤ r.2) = true := by
    simp [hr, hfirst, hlast]
  -- runs are ordered by index
  have horder : ∀ (j k : Nat) (a b : Nat × Nat), j < k → runs[j]? = some a → runs[k]? = some b →
      a.2 < b.1 := by
    intro j k a b hjk ha hb
    obtain ⟨hj, rfl⟩ := List.getElem?_eq_some_iff.mp ha
    obtain ⟨hk, rfl⟩ := List.getElem?_eq_some_iff.mp hb
    exact List.pairwise_iff_getElem.mp h.ordered j k hj hk hjk
  intro fuel
  induction fuel with
  | zero =>
      intro base size hsize hlen hge hlt
      obtain rfl : base = i := by omega
      exact hat
  | succ fuel ih =>
      intro base size hsize hlen hge hlt
      rw [searchRuns]
      split
      · obtain rfl : base = i := by omega
        exact hat
      · dsimp only
        have hhalf : 0 < size / 2 ∧ size / 2 ≤ size - size / 2 := by omega
        cases hmid : runs[base + size / 2]? with
        | none =>
            -- the part searched lies within the list
            have := List.getElem?_eq_none_iff.mp hmid
            omega
        | some m =>
            simp only [Option.any_some, decide_eq_true_eq]
            split
            · rename_i habove
              refine ih base (size - size / 2) (by omega) (by omega) hge ?_
              by_contra hcon
              -- a run at or beyond the middle begins above the number
              rcases Nat.lt_or_eq_of_le (show base + size / 2 ≤ i by omega) with hlt' | heq
              · have := horder _ _ _ _ hlt' hmid hr
                have := h.proper m (List.mem_of_getElem? hmid)
                omega
              · rw [heq, hr] at hmid
                cases hmid
                omega
            · rename_i hbelow
              refine ih (base + size / 2) (size - size / 2) (by omega) (by omega) ?_ (by omega)
              by_contra hcon
              have := horder _ _ _ _ (show i < base + size / 2 by omega) hr hmid
              omega

/-- The search decides whether a run contains the number. -/
theorem seqInRuns_eq_true {runs : List (Nat × Nat)} (h : Runs.Ascending runs) {seq : Nat} :
    seqInRuns runs seq = true ↔ Runs.Covers runs seq := by
  constructor
  · -- whatever run the search ends at contains the number
    have hany : ∀ base : Nat, (runs[base]?).any (fun r => r.1 ≤ seq && seq ≤ r.2) = true →
        Runs.Covers runs seq := by
      intro base hbase
      cases hr : runs[base]? with
      | none =>
          rw [hr] at hbase
          cases hbase
      | some r =>
          rw [hr] at hbase
          simp only [Option.any_some, Bool.and_eq_true, decide_eq_true_eq] at hbase
          exact ⟨r, List.mem_of_getElem? hr, hbase.1, hbase.2⟩
    have hsearch : ∀ fuel base size, searchRuns runs seq fuel base size = true →
        Runs.Covers runs seq := by
      intro fuel
      induction fuel with
      | zero => exact fun base _ => hany base
      | succ fuel ih =>
          intro base size hs
          rw [searchRuns] at hs
          split at hs
          · exact hany base hs
          · exact ih _ _ hs
    exact hsearch _ _ _
  · rintro ⟨r, hr, hfirst, hlast⟩
    obtain ⟨i, hi, rfl⟩ := List.mem_iff_getElem.mp hr
    exact searchRuns_of_index h (List.getElem?_eq_getElem hi) hfirst hlast _ 0 runs.length
      (by omega) (by omega) (Nat.zero_le _) (by omega)

/-! ## Missed numbers -/

namespace Receive

variable {κ π : Type} {r : Receive π} {s : Nat}

/-- The runs the map has reported so far. -/
def reported (r : Receive π) : List (Nat × Nat) :=
  match r.point with
  | .scanned runs _ => r.allRuns ++ runs
  | _ => r.allRuns

/-- The page that would hold the number has been scanned. -/
def Passed (r : Receive π) (s : Nat) : Prop :=
  match r.point with
  | .map after => s ≤ after
  | .scanned runs truncated => truncated = true → runs ≠ [] → ∃ run ∈ runs, s ≤ run.2
  | _ => True

/-- The page was scanned and did not report the number. -/
def Missed (r : Receive π) (s : Nat) : Prop := r.Passed s ∧ ¬ Runs.Covers r.reported s

/-- The sweep is still to come. -/
def Sweeps (r : Receive π) : Bool :=
  match r.point with
  | .delete _ => false
  | .done => false
  | _ => true

/-- The call will remove what holds this number, as the rows are now. -/
def Dooms (r : Receive π) (delivered : List Nat) (s : Nat) : Prop :=
  (r.Sweeps = true ∧ s ∈ delivered ∧ r.Missed s) ∨ ∃ ts, r.point = .delete ts ∧ s ∈ ts

instance : (r : Receive π) → (s : Nat) → Decidable (r.Passed s)
  | ⟨_, _, _, _, _, .map after⟩, s => inferInstanceAs (Decidable (s ≤ after))
  | ⟨_, _, _, _, _, .scanned runs truncated⟩, s =>
      inferInstanceAs (Decidable (truncated = true → runs ≠ [] → ∃ run ∈ runs, s ≤ run.2))
  | ⟨_, _, _, _, _, .load⟩, _ => inferInstanceAs (Decidable True)
  | ⟨_, _, _, _, _, .pull _ _ _⟩, _ => inferInstanceAs (Decidable True)
  | ⟨_, _, _, _, _, .skip _ _ _⟩, _ => inferInstanceAs (Decidable True)
  | ⟨_, _, _, _, _, .packet _ _ _ _ _⟩, _ => inferInstanceAs (Decidable True)
  | ⟨_, _, _, _, _, .advance _ _ _ _ _ _⟩, _ => inferInstanceAs (Decidable True)
  | ⟨_, _, _, _, _, .bump⟩, _ => inferInstanceAs (Decidable True)
  | ⟨_, _, _, _, _, .sweep⟩, _ => inferInstanceAs (Decidable True)
  | ⟨_, _, _, _, _, .delete _⟩, _ => inferInstanceAs (Decidable True)
  | ⟨_, _, _, _, _, .done⟩, _ => inferInstanceAs (Decidable True)

instance (r : Receive π) (s : Nat) : Decidable (r.Missed s) :=
  inferInstanceAs (Decidable (_ ∧ ¬ _))

/-- The numbers at `.delete`. -/
def tombstones (r : Receive π) : List Nat :=
  match r.point with
  | .delete ts => ts
  | _ => []

theorem dooms_iff {delivered : List Nat} :
    r.Dooms delivered s ↔
      (r.Sweeps = true ∧ s ∈ delivered ∧ r.Missed s) ∨ s ∈ r.tombstones := by
  refine or_congr_right ?_
  unfold tombstones
  constructor
  · rintro ⟨ts, hp, hs⟩
    rw [hp]
    exact hs
  · intro h
    split at h
    · rename_i ts hp
      exact ⟨ts, hp, h⟩
    · exact absurd h List.not_mem_nil

instance (r : Receive π) (delivered : List Nat) (s : Nat) : Decidable (r.Dooms delivered s) :=
  decidable_of_iff _ dooms_iff.symm

/-- Sorting the runs does not change what was reported. -/
theorem covers_insertionSort {runs : List (Nat × Nat)} :
    Runs.Covers (runs.insertionSort (fun a b => a.1 ≤ b.1)) s ↔ Runs.Covers runs s := by
  unfold Runs.Covers
  simp only [List.mem_insertionSort]

/-- All pages of the map are there. -/
def PastMap (r : Receive π) : Prop := (∀ s, r.Passed s) ∧ r.reported = r.allRuns

theorem pastMap_missed {r' : Receive π} (hr : r.PastMap) (hr' : r'.PastMap)
    (hruns : r'.allRuns = r.allRuns) (h : r'.Missed s) : r.Missed s := by
  refine ⟨hr.1 s, ?_⟩
  rw [hr.2, ← hruns, ← hr'.2]
  exact h.2

theorem pastMap_nextRun (r : Receive π) (todo : List (Nat × Nat)) :
    (r.nextRun todo).PastMap ∧ (r.nextRun todo).allRuns = r.allRuns := by
  induction todo with
  | nil => exact ⟨⟨fun _ => trivial, rfl⟩, rfl⟩
  | cons run todo ih =>
      obtain ⟨first, stop⟩ := run
      rw [nextRun]
      split
      · exact ih
      · split
        · exact ⟨⟨fun _ => trivial, rfl⟩, rfl⟩
        · exact ih

theorem pastMap_nextBatch (r : Receive π) (seq stop : Nat) (todo : List (Nat × Nat)) :
    (r.nextBatch seq stop todo).PastMap ∧ (r.nextBatch seq stop todo).allRuns = r.allRuns := by
  unfold nextBatch
  split
  · exact ⟨⟨fun _ => trivial, rfl⟩, rfl⟩
  · exact pastMap_nextRun r todo

theorem pastMap_nextPacket (r : Receive π) (queue : List (RawPacket π)) (batchEnd stop : Nat)
    (todo : List (Nat × Nat)) :
    (r.nextPacket queue batchEnd stop todo).PastMap ∧
      (r.nextPacket queue batchEnd stop todo).allRuns = r.allRuns := by
  unfold nextPacket
  split
  · exact ⟨⟨fun _ => trivial, rfl⟩, rfl⟩
  · exact pastMap_nextBatch r _ stop todo

theorem pastMap_onPull (r : Receive π) (packets : List (RawPacket π)) (seq stop : Nat)
    (todo : List (Nat × Nat)) :
    (r.onPull packets seq stop todo).PastMap ∧
      (r.onPull packets seq stop todo).allRuns = r.allRuns := by
  unfold onPull
  split <;> exact ⟨⟨fun _ => trivial, rfl⟩, rfl⟩

/-- A page that is added to the map reports what it did when it was scanned. -/
theorem missed_onMap {runs : List (Nat × Nat)} {truncated : Bool} {lastSeq : Nat}
    (hp : r.point = .scanned runs truncated)
    (h : (r.onMap ⟨runs, lastSeq, truncated⟩).Missed s) : r.Missed s := by
  unfold onMap at h
  dsimp only at h
  cases hend : Runs.lastEnd? runs with
  | none =>
      -- an empty page is the last one
      obtain rfl := Runs.lastEnd?_eq_none.mp hend
      rw [hend] at h
      refine ⟨?_, ?_⟩
      · simp only [Passed, hp]
        exact fun _ hne => absurd rfl hne
      · simpa only [reported, hp, List.append_nil] using h.2
  | some lastEnd =>
      rw [hend] at h
      obtain ⟨run, hrun, rfl⟩ := Option.map_eq_some_iff.mp hend
      refine ⟨?_, ?_⟩
      · simp only [Passed, hp]
        intro htrunc _
        have hle := h.1
        simp only [Passed, htrunc, ↓reduceIte] at hle
        exact ⟨run, List.mem_of_getLast? hrun, hle⟩
      · have hnot := h.2
        simp only [reported, hp]
        cases truncated <;> simpa [reported] using hnot

/-! The loops over runs, batches and packets come before the sweep. -/

theorem sweeps_nextRun (r : Receive π) (todo : List (Nat × Nat)) :
    (r.nextRun todo).Sweeps = true := by
  induction todo with
  | nil => rfl
  | cons run todo ih =>
      obtain ⟨first, stop⟩ := run
      rw [nextRun]
      split
      · exact ih
      · split
        · rfl
        · exact ih

theorem sweeps_nextBatch (r : Receive π) (seq stop : Nat) (todo : List (Nat × Nat)) :
    (r.nextBatch seq stop todo).Sweeps = true := by
  unfold nextBatch
  split
  · rfl
  · exact sweeps_nextRun r todo

theorem sweeps_nextPacket (r : Receive π) (queue : List (RawPacket π)) (batchEnd stop : Nat)
    (todo : List (Nat × Nat)) : (r.nextPacket queue batchEnd stop todo).Sweeps = true := by
  unfold nextPacket
  split
  · rfl
  · exact sweeps_nextBatch r _ stop todo

theorem sweeps_onPull (r : Receive π) (packets : List (RawPacket π)) (seq stop : Nat)
    (todo : List (Nat × Nat)) : (r.onPull packets seq stop todo).Sweeps = true := by
  unfold onPull
  split <;> rfl

theorem sweeps_onMap (r : Receive π) (m : MapResult) : (r.onMap m).Sweeps = true := by
  unfold onMap
  dsimp only
  split
  · rfl
  · unfold Sweeps
    cases m.truncated <;> rfl

end Receive

section Move

open Receive

variable {κ π : Type} {r : Receive π} {s : Nat}

/-- **A move misses no live number.** Only the scan of a page passes numbers, and it reports
those that are live. -/
theorem RxMove.missed [Aead κ π] {c : Client κ} {env : Env} {ps : PacketStore π}
    {st st' : LocalStore} {r r' : Receive π} {notices : List (Notice π)}
    (h : RxMove c env ps st r st' r' notices) (hlive : s ∈ ps.live c.key) (hu : s < u64Size)
    (hm : r'.Missed s) : r.Missed s := by
  cases h with
  | @scan after hp =>
      by_cases hle : s ≤ after
      · refine ⟨by simpa only [Passed, hp] using hle, ?_⟩
        simp only [reported, hp]
        exact fun hc => hm.2 (Runs.covers_append.mpr (Or.inl hc))
      · -- the number is live and on this page
        have hafter : after + 1 < u64Size := by omega
        have hscan := PacketStore.mapRuns_spec ps c.key 0 (by decide : 0 < mapMaxRuns) hafter
        have hmem : s ∈ (ps.live c.key).filter (fun s => after + 1 ≤ s) :=
          List.mem_filter.mpr ⟨hlive, decide_eq_true (by omega)⟩
        rcases hscan.complete s hmem (Or.inl rfl) with hc | ⟨ht, hend⟩
        · exact absurd (Runs.covers_append.mpr (Or.inr hc)) hm.2
        · obtain ⟨run, hrun, hle'⟩ := hm.1 ht (hscan.cut ht)
          have := hend run hrun
          omega
  | lastSeq hp => exact missed_onMap hp hm
  | load hp =>
      obtain ⟨hpast, hruns⟩ := pastMap_nextRun _ _
      have hnot := hm.2
      rw [hpast.2, hruns] at hnot
      refine ⟨by simp only [Passed, hp], ?_⟩
      simp only [reported, hp]
      exact fun hc => hnot (covers_insertionSort.mpr hc)
  | pull hp =>
      refine pastMap_missed ?_ (pastMap_onPull r _ _ _ _).1 (pastMap_onPull r _ _ _ _).2 hm
      exact ⟨fun _ => by simp only [Passed, hp], by simp only [reported, hp]⟩
  | skip hp =>
      refine pastMap_missed ?_ (pastMap_nextBatch _ _ _ _).1 ?_ hm
      · exact ⟨fun _ => by simp only [Passed, hp], by simp only [reported, hp]⟩
      · exact (pastMap_nextBatch _ _ _ _).2
  | advance hp =>
      refine pastMap_missed ?_ (pastMap_nextPacket _ _ _ _ _).1 ?_ hm
      · exact ⟨fun _ => by simp only [Passed, hp], by simp only [reported, hp]⟩
      · exact (pastMap_nextPacket _ _ _ _ _).2
  | packet hp | bump hp | stay hp | sweep hp | tombstones hp | delete hp =>
      refine pastMap_missed ?_ ?_ (by rfl) hm
      · exact ⟨fun _ => by simp only [Passed, hp], by simp only [reported, hp]⟩
      · exact ⟨fun _ => trivial, rfl⟩

/-- **A move dooms no live number** by itself: what it dooms was doomed before, or is held by a
message that it confirms. -/
theorem RxMove.dooms [Aead κ π] {c : Client κ} {env : Env} {ps : PacketStore π}
    {st st' : LocalStore} {r r' : Receive π} {notices : List (Notice π)}
    (h : RxMove c env ps st r st' r' notices) (ho : r.Ordered) (hlive : s ∈ ps.live c.key)
    (hu : s < u64Size) (hd : r'.Dooms (st'.getDeliveredServerSeqs c.key) s) :
    r.Dooms (st.getDeliveredServerSeqs c.key) s ∨
      (s ∈ st'.getDeliveredServerSeqs c.key ∧ s ∉ st.getDeliveredServerSeqs c.key ∧
        r.Sweeps = true ∧ r.Missed s) := by
  have hmissed := h.missed hlive hu
  rcases hd with ⟨hsweeps, hmem, hm⟩ | ⟨ts, hp', hs⟩
  · have hr : r.Sweeps = true := by
      cases h with
      | delete hp => cases hsweeps
      | scan hp | lastSeq hp | load hp | pull hp | skip hp | packet hp | advance hp | bump hp
        | stay hp | sweep hp | tombstones hp => simp only [Sweeps, hp]
    by_cases hold : s ∈ st.getDeliveredServerSeqs c.key
    · exact Or.inl (Or.inl ⟨hr, hold, hmissed hm⟩)
    · exact Or.inr ⟨hmem, hold, hr, hmissed hm⟩
  · left
    have hgone : ∀ {r₁ : Receive π}, r₁.point = .delete ts → ¬ r₁.Sweeps = true := by
      intro r₁ hp₁
      simp only [Sweeps, hp₁, Bool.false_eq_true, not_false_eq_true]
    cases h with
    | tombstones hp hts =>
        -- the numbers the sweep finds are confirmed and not reported
        cases hp'
        rw [← hts] at hs
        obtain ⟨hmem, hnot⟩ := List.mem_filter.mp hs
        refine Or.inl ⟨by simp only [Sweeps, hp], hmem, by simp only [Passed, hp], ?_⟩
        have hasc : Runs.Ascending r.allRuns := by
          simpa only [Ordered, hp] using ho
        simp only [reported, hp]
        rw [← seqInRuns_eq_true hasc]
        simpa using hnot
    | lastSeq => exact absurd (sweeps_onMap r _) (hgone hp')
    | load => exact absurd (sweeps_nextRun _ _) (hgone hp')
    | pull => exact absurd (sweeps_onPull r _ _ _ _) (hgone hp')
    | skip => exact absurd (sweeps_nextBatch _ _ _ _) (hgone hp')
    | advance => exact absurd (sweeps_nextPacket _ _ _ _ _) (hgone hp')
    | scan | packet | bump | stay | sweep | delete => cases hp'

end Move

/-! ## Runs -/

namespace World

variable {κ π : Type} {n : Nat}

/-- The numbers of the confirmed messages on a device. -/
def confirmed (cfg : Setup κ n) (w : World π n) (d : Fin n) : List Nat :=
  (w.store d).getDeliveredServerSeqs cfg.key

/-- A running call has missed the number, or every call will: no page of the map reports `0`. -/
def MissedBy (w : World π n) (d : Fin n) (s : Nat) : Prop :=
  s = 0 ∨ ∃ rx ∈ w.receiving d, rx.run.Sweeps = true ∧ rx.run.Missed s

/-- A sweep that is under way on the device, or one still to come, removes what holds this
number. -/
def Doomed (cfg : Setup κ n) (w : World π n) (d : Fin n) (s : Nat) : Prop :=
  (s ∈ w.confirmed cfg d ∧ w.MissedBy d s) ∨ ∃ rx ∈ w.receiving d, s ∈ rx.run.tombstones

/-- A push that is about to be stored does not bring back a doomed number. -/
def PushSpared (cfg : Setup κ n) (w : World π n) (l : Label π n) : Prop :=
  match w.incoming l with
  | some (_, req) =>
      w.Accepts req → req.dialogue = cfg.key → ∀ d, ¬ w.Doomed cfg d req.seq
  | none => True

/-- No message is confirmed, between two worlds, that a running call has missed while its number
is live. -/
def ConfirmSpared (cfg : Setup κ n) (w w' : World π n) : Prop :=
  ∀ d, ∀ s ∈ w'.confirmed cfg d, s ∉ w.confirmed cfg d → w.MissedBy d s →
    s ∉ w.server.store.live cfg.key

instance (w : World π n) (d : Fin n) (s : Nat) : Decidable (w.MissedBy d s) :=
  inferInstanceAs (Decidable (_ ∨ ∃ _ ∈ _, _ ∧ _))

instance (cfg : Setup κ n) (w : World π n) (d : Fin n) (s : Nat) :
    Decidable (w.Doomed cfg d s) :=
  inferInstanceAs (Decidable ((_ ∧ _) ∨ ∃ _ ∈ _, _))

instance (cfg : Setup κ n) (w : World π n) (l : Label π n) :
    Decidable (w.PushSpared cfg l) := by
  unfold PushSpared
  split <;> infer_instance

instance (cfg : Setup κ n) (w w' : World π n) : Decidable (w.ConfirmSpared cfg w') :=
  inferInstanceAs (Decidable (∀ _, ∀ _ ∈ _, _ → _ → _))

/-- Nothing live is doomed. -/
structure Spares (cfg : Setup κ n) (w : World π n) : Prop where
  range : ∀ s ∈ w.server.store.live cfg.key, s < u64Size
  ordered : ∀ d, ∀ rx ∈ w.receiving d, rx.run.Ordered
  spares : ∀ d, ∀ s, w.Doomed cfg d s → s ∉ w.server.store.live cfg.key

theorem spares_init (cfg : Setup κ n) : Spares cfg (init cfg : World π n) where
  range _ h := absurd h List.not_mem_nil
  ordered _ _ h := absurd h List.not_mem_nil
  spares _ _ _ h := absurd h List.not_mem_nil

variable [Aead κ π] {cfg : Setup κ n} {w w' : World π n} {l : Label π n} {d : Fin n} {s : Nat}

/-- Every live number is one of the server's. -/
theorem range_step (h : StepCase cfg w l w')
    (hi : ∀ s ∈ w.server.store.live cfg.key, s < u64Size) :
    ∀ s ∈ w'.server.store.live cfg.key, s < u64Size := by
  intro s hs
  obtain ⟨data, hget⟩ := PacketStore.mem_live.mp hs
  rcases get_step h hget with hold | ⟨job, req, _, hacc, _, rfl, _⟩
  · exact hi s (PacketStore.mem_live.mpr ⟨data, hold⟩)
  · rcases serve_cases w job req with ⟨_, hlt, _⟩ | ⟨hrej, _⟩
    · exact hlt
    · exact absurd hacc hrej

/-- The parts of every running call's map stay in order. -/
theorem ordered_step (h : StepCase cfg w l w') (hrelay : l.isRelay = false)
    (hi : ∀ d, ∀ rx ∈ w.receiving d, rx.run.Ordered) :
    ∀ d, ∀ rx ∈ w'.receiving d, rx.run.Ordered := by
  -- what no number matters to, passes over nothing
  have ht : Tracks cfg w (fun _ _ => False) (fun _ _ => False) (fun _ _ _ => False) :=
    ⟨fun _ _ h => h.elim, fun d rx hrx => ⟨hi d rx hrx, fun _ h => h.elim⟩⟩
  have ht' : Tracks cfg w' (fun _ _ => False) (fun _ _ => False) (fun _ _ _ => False) :=
    tracks_step h hrelay ht (fun _ _ h => h.elim) (fun _ _ h => h.elim)
      (fun _ _ h => h.elim) (fun _ _ _ h => h) (fun _ _ h => h.elim) (fun _ _ _ h => h.elim)
      (fun _ _ _ _ _ _ _ _ _ _ _ _ _ _ _ _ _ _ => ⟨fun h => h, fun _ _ _ h => h.elim⟩)
  exact fun d rx hrx => (ht'.running d rx hrx).ordered

/-- **What becomes doomed in a step** was doomed before, or was missed and is confirmed now. -/
theorem doomed_step (h : StepCase cfg w l w') (hrelay : l.isRelay = false)
    (hordered : ∀ d, ∀ rx ∈ w.receiving d, rx.run.Ordered) (hu : s < u64Size)
    (hlive : w'.server = w.server → s ∈ w.server.store.live cfg.key)
    (hd : w'.Doomed cfg d s) :
    w.Doomed cfg d s ∨
      (s ∈ w'.confirmed cfg d ∧ s ∉ w.confirmed cfg d ∧ w.MissedBy d s) := by
  -- a call that was running dooms what it did, unless the step confirms it
  have hrx : ∀ rx ∈ w.receiving d, rx.run.Dooms (w'.confirmed cfg d) s → w.Doomed cfg d s ∨
      (s ∈ w'.confirmed cfg d ∧ s ∉ w.confirmed cfg d ∧ w.MissedBy d s) := by
    intro rx hrx hdooms
    rcases Receive.dooms_iff.mp hdooms with ⟨hsweeps, hmem, hm⟩ | hts
    · have hby : w.MissedBy d s := Or.inr ⟨rx, hrx, hsweeps, hm⟩
      by_cases hold : s ∈ w.confirmed cfg d
      · exact Or.inl (Or.inl ⟨hold, hby⟩)
      · exact Or.inr ⟨hmem, hold, hby⟩
    · exact Or.inl (Or.inr ⟨rx, hrx, hts⟩)
  have hdooms : (s = 0 ∧ s ∈ w'.confirmed cfg d) ∨
      ∃ rx' ∈ w'.receiving d, rx'.run.Dooms (w'.confirmed cfg d) s := by
    rcases hd with ⟨hmem, h0 | ⟨rx', hrx', hsweeps, hm⟩⟩ | ⟨rx', hrx', hts⟩
    · exact Or.inl ⟨h0, hmem⟩
    · exact Or.inr ⟨rx', hrx', Receive.dooms_iff.mpr (Or.inl ⟨hsweeps, hmem, hm⟩)⟩
    · exact Or.inr ⟨rx', hrx', Receive.dooms_iff.mpr (Or.inr hts)⟩
  have hzero : s = 0 → s ∈ w'.confirmed cfg d → w.Doomed cfg d s ∨
      (s ∈ w'.confirmed cfg d ∧ s ∉ w.confirmed cfg d ∧ w.MissedBy d s) := by
    intro h0 hmem
    by_cases hold : s ∈ w.confirmed cfg d
    · exact Or.inl (Or.inl ⟨hold, Or.inl h0⟩)
    · exact Or.inr ⟨hmem, hold, Or.inl h0⟩
  rcases hdooms with ⟨h0, hmem⟩ | ⟨rx', hrx', hdooms⟩
  · exact hzero h0 hmem
  · rcases receiving_step h hrelay hrx' with hold | rfl | ⟨rx, hold, hm⟩
    · exact hrx rx' hold hdooms
    · -- a call that begins has passed nothing but `0`
      rcases Receive.dooms_iff.mp hdooms with ⟨_, hmem, hmiss⟩ | hts
      · exact hzero (Nat.le_zero.mp hmiss.1) hmem
      · exact absurd hts List.not_mem_nil
    · obtain ⟨env, notices, job, hmove, _⟩ := hm.move
      have hkey := cfg.shared d
      have hl := hlive hm.server
      unfold confirmed at hdooms
      rw [← hkey] at hdooms hl
      rcases hmove.dooms (hordered d rx hold) hl hu hdooms with h' | ⟨hmem, hnot, hsweeps, hmiss⟩
      · rcases Receive.dooms_iff.mp h' with ⟨hsweeps, hmem, hmiss⟩ | hts
        · rw [hkey] at hmem
          exact Or.inl (Or.inl ⟨hmem, Or.inr ⟨rx, hold, hsweeps, hmiss⟩⟩)
        · exact Or.inl (Or.inr ⟨rx, hold, hts⟩)
      · rw [hkey] at hmem hnot
        exact Or.inr ⟨hmem, hnot, Or.inr ⟨rx, hold, hsweeps, hmiss⟩⟩

/-- **A step dooms nothing that is live.** -/
theorem spares_step (h : StepCase cfg w l w') (hrelay : l.isRelay = false)
    (hpush : w.PushSpared cfg l) (hconfirm : w.ConfirmSpared cfg w') (hi : Spares cfg w) :
    Spares cfg w' := by
  have hrange := range_step h hi.range
  refine ⟨hrange, ordered_step h hrelay hi.ordered, fun d s hd hs => ?_⟩
  obtain ⟨data, hget⟩ := PacketStore.mem_live.mp hs
  rcases get_step h hget with hold | ⟨job, req, hin, hacc, hkey, rfl, _⟩
  · -- the number was live already
    have hlive := PacketStore.mem_live.mpr ⟨data, hold⟩
    rcases doomed_step h hrelay hi.ordered (hrange s hs) (fun _ => hlive) hd with
      h' | ⟨hmem, hnot, hmiss⟩
    · exact hi.spares d s h' hlive
    · exact hconfirm d s hmem hnot hmiss hlive
  · -- the number becomes live
    simp only [PushSpared, hin] at hpush
    by_cases hlive : req.seq ∈ w.server.store.live cfg.key
    · rcases doomed_step h hrelay hi.ordered (hrange _ hs) (fun _ => hlive) hd with
        h' | ⟨hmem, hnot, hmiss⟩
      · exact hi.spares d _ h' hlive
      · exact hconfirm d _ hmem hnot hmiss hlive
    · have hserver : w'.server ≠ w.server := by
        intro he
        rw [he] at hs
        exact hlive hs
      rcases doomed_step h hrelay hi.ordered (hrange _ hs) (fun he => absurd he hserver) hd with
        h' | ⟨hmem, hnot, hmiss⟩
      · exact hpush hacc hkey d h'
      · -- a step that stores a packet confirms no message
        cases server_step h with
        | quiet hsame => exact hserver hsame
        | same hsame => exact hserver hsame
        | stored _ _ _ _ _ _ _ hstore =>
            unfold confirmed at hmem hnot
            rw [hstore] at hmem
            exact hnot hmem
        | removed hl =>
            subst hl
            cases hin

end World

namespace Session

variable {κ π : Type} {n : Nat} [Aead κ π] (cfg : Setup κ n) {s s' : Session π n} {l : Label π n}

/-- The answers of a step are the server's own, and it neither stores a doomed number nor confirms
a live message that a running call has missed. -/
def SparingStep (s : Session π n) (l : Label π n) : Prop :=
  (match l with
    | .world wl => wl.isRelay = false ∧ s.world.PushSpared cfg wl
    | _ => True) ∧
  match step cfg s l with
  | some s' => s.world.ConfirmSpared cfg s'.world
  | none => True

instance (s : Session π n) (l : Label π n) : Decidable (s.SparingStep cfg l) := by
  unfold SparingStep
  refine @instDecidableAnd _ _ ?_ ?_
  · exact match l with
      | .world _ | .ask _ | .arrived .. => by infer_instance
  · exact match step cfg s l with
      | some _ | none => by infer_instance

variable {cfg}

theorem spares_step (h : s.world.Spares cfg) (hok : s.SparingStep cfg l)
    (hs : step cfg s l = some s') : s'.world.Spares cfg := by
  obtain ⟨hlabel, hconfirm⟩ := hok
  rw [hs] at hconfirm
  dsimp only at hconfirm
  cases l with
  | world wl =>
      obtain ⟨hrelay, hpush⟩ := hlabel
      simp only [step] at hs
      split at hs
      · cases hs
      · rename_i w' hw
        cases hs
        exact World.spares_step (World.step_inv hw) hrelay hpush hconfirm h
  | ask dev =>
      simp only [step] at hs
      split at hs <;> cases hs
      exact h
  | arrived i partnerLastSeq =>
      simp only [step] at hs
      split at hs
      · cases hs
      · cases hs
        exact h
      · rename_i dev upToSeq hask
        cases hs
        refine ⟨h.range, h.ordered, fun d q hd hlive => ?_⟩
        -- only what is confirmed has changed
        rcases hd with ⟨hmem, hmiss⟩ | hts
        · by_cases hold : q ∈ s.world.confirmed cfg d
          · exact h.spares d q (Or.inl ⟨hold, hmiss⟩) hlive
          · exact hconfirm d q hmem hold hmiss hlive
        · exact h.spares d q (Or.inr hts) hlive

/-- **The sweep takes no live message** in a run whose every step is sparing: whatever a call that
has come to its sweep removes was not live any more. -/
theorem sweep_reachable (hr : Lts.Reach (step cfg) (SparingStep cfg) (init cfg) s) {d : Fin n}
    {rx : Rx π} (hrx : rx ∈ s.world.receiving d) {ts : List Nat}
    (hp : rx.run.point = .delete ts) {m : Message} (hm : m ∈ (s.world.store d).messages)
    (hgone : m ∉ ((s.world.store d).deleteMessagesBySeqs cfg.key ts).messages) :
    ∃ seq, m.serverSeq = some seq ∧ seq ∉ s.world.server.store.live cfg.key := by
  have hi : s.world.Spares cfg :=
    hr.invariant (P := fun s => s.world.Spares cfg) (World.spares_init cfg)
      (fun _ _ _ _ h hok hs => spares_step h hok hs)
  rw [LocalStore.mem_deleteMessagesBySeqs] at hgone
  have hsel : m.dialogue = cfg.key ∧ ∃ q ∈ ts, m.serverSeq = some q := by
    by_contra hcon
    exact hgone ⟨hm, hcon⟩
  obtain ⟨_, q, hq, hseq⟩ := hsel
  refine ⟨q, hseq, hi.spares d q (Or.inr ⟨rx, hrx, ?_⟩)⟩
  unfold Receive.tombstones
  rw [hp]
  exact hq

/-- Bob's device has the message `m1`, which is deleted, and its next `receive`, call `2`, comes to
its sweep. -/
def withdrawn : List (Paranoia.Label Sealed 3) :=
  Sample.sends 0 0 "m1" ++ [.start 1 .receive, .scan 1, .lastSeq 1] ++ Sample.steps 1 1 ++
    [.pull 1] ++ Sample.steps 1 5 ++ [.remove 1 1, .start 1 .receive, .scan 2, .lastSeq 2] ++
    Sample.steps 2 3

/-- The row of `m1` on Bob's device. -/
def rowOfBob : Message :=
  ⟨"m1", ⟨"alice", "bob"⟩, "alice", .text "m1", 0, .delivered, some 1, none, none⟩

/-- The message deleted for everybody is removed. -/
theorem sweep_withdrawn :
    (Lts.execWhile (step Sample.setup) (SparingStep Sample.setup) (init Sample.setup)
      (withdrawn.map .world)).isSome = true
    ∧ ∃ seq, rowOfBob.serverSeq = some seq ∧
      seq ∉ ((Lts.execWhile (step Sample.setup) (SparingStep Sample.setup) (init Sample.setup)
        (withdrawn.map .world)).getD (init Sample.setup)).world.server.store.live
          Sample.setup.key := by
  have hrun : (Lts.execWhile (step Sample.setup) (SparingStep Sample.setup) (init Sample.setup)
      (withdrawn.map .world)).isSome = true := by decide
  exact ⟨hrun, sweep_reachable (d := 1) (Lts.reach_getD hrun)
    (show ⟨4, ⟨[], 0, 1, [], [], .delete [1]⟩⟩ ∈ _ by decide) rfl (by decide) (by decide)⟩

/-- Steps of calls, pushes and questions: no deletion, and nothing a relay makes up. -/
def Label.isPlain {π : Type} {n : Nat} : Label π n → Bool
  | .world l => !l.isRelay && !l.isRemoval
  | _ => true

/-- Alice's device has the map of a `receive`, call `0`, when call `1` sends `m1`, which Bob
pulls. -/
def sentMeanwhile : List (Paranoia.Label Sealed 3) :=
  [.start 0 .receive, .scan 0, .lastSeq 0] ++ Sample.sends 0 1 "m1" ++
    [.start 1 .receive, .scan 2, .lastSeq 2] ++ Sample.steps 2 1 ++ [.pull 2]

/-- The row of `m1` on Alice's device, once Bob is known to have read it. -/
def rowOfAlice : Message :=
  ⟨"m1", ⟨"alice", "bob"⟩, "alice", .text "m1", 0, .read, some 1, none, none⟩

/-- A message sent and read after the map was collected is removed while it is live. -/
theorem sweep_takes_live :
    ¬ ∀ s : Session Sealed 3, Lts.Reach (step Sample.setup) (fun _ l => l.isPlain = true)
      (init Sample.setup) s → ∀ d, ∀ rx ∈ s.world.receiving d, ∀ ts, rx.run.point = .delete ts →
      ∀ m ∈ (s.world.store d).messages,
        m ∉ ((s.world.store d).deleteMessagesBySeqs Sample.setup.key ts).messages →
        ∃ seq, m.serverSeq = some seq ∧ seq ∉ s.world.server.store.live Sample.setup.key := by
  intro h
  have hrun : (Lts.execWhile (step Sample.setup) (fun _ l => l.isPlain = true)
      (init Sample.setup) (sentMeanwhile.map .world ++ asked ++
        (Sample.steps 0 3).map .world)).isSome = true := by decide
  obtain ⟨seq, hseq, hlive⟩ := h _ (Lts.reach_getD hrun) 0 ⟨0, ⟨[], 0, 0, [], [], .delete [1]⟩⟩
    (by decide) [1] rfl rowOfAlice (by decide) (by decide)
  cases hseq
  exact hlive (by decide)

end Session

end Paranoia
