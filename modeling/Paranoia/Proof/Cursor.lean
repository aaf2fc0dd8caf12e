import Mathlib.Data.List.TakeWhile
import Paranoia.Client.Receive

/-!
# What a running receive still comes to

A cursor is a single high-water mark, so it may only move over numbers that are
settled. For a running `receive` every number is one of three: settled, `Ahead`
(the call still comes to it), or `Beyond` everything the call can set the cursor
to. `Follows` says that this holds of the numbers that matter; each step of the
machine preserves it, and with it `Settled`: below the stored cursor everything
that matters is settled.

Which numbers matter (`E`), which are settled (`S`) and which are new since the
call began (`N`) is left open: the argument is the same for packets that have to
be pulled and for messages that have to be stored.
-/

namespace Paranoia

namespace Receive

variable {κ π : Type}

/-- Where the cursor stands, or goes in the step that comes next. -/
def front (r : Receive π) : Nat :=
  match r.point with
  | .skip batchEnd _ _ => batchEnd
  | .advance target _ _ _ _ _ => target
  | _ => r.cursor

/-- The number is in the part of the map that is still to be worked through. -/
def Pending (r : Receive π) (s : Nat) : Prop :=
  match r.point with
  | .map after => Runs.Covers r.allRuns s ∨ after < s
  | .scanned runs truncated =>
      Runs.Covers (r.allRuns ++ runs) s
        ∨ (truncated = true ∧ runs ≠ [] ∧ ∀ run ∈ runs, run.2 < s)
  | .load => Runs.Covers r.allRuns s
  | .pull seq stop todo => (seq ≤ s ∧ s ≤ stop) ∨ Runs.Covers todo s
  | .skip batchEnd stop todo => (batchEnd < s ∧ s ≤ stop) ∨ Runs.Covers todo s
  | .packet pkt queue batchEnd stop todo =>
      (∃ q ∈ pkt :: queue, q.seq = s) ∨ (batchEnd < s ∧ s ≤ stop) ∨ Runs.Covers todo s
  | .advance _ _ queue batchEnd stop todo =>
      (∃ q ∈ queue, q.seq = s) ∨ (batchEnd < s ∧ s ≤ stop) ∨ Runs.Covers todo s
  | _ => False

instance : (r : Receive π) → (s : Nat) → Decidable (r.Pending s)
  | ⟨allRuns, _, _, _, _, .map after⟩, s =>
      inferInstanceAs (Decidable (Runs.Covers allRuns s ∨ after < s))
  | ⟨allRuns, _, _, _, _, .scanned runs truncated⟩, s =>
      inferInstanceAs (Decidable (Runs.Covers (allRuns ++ runs) s
        ∨ (truncated = true ∧ runs ≠ [] ∧ ∀ run ∈ runs, run.2 < s)))
  | ⟨allRuns, _, _, _, _, .load⟩, s => inferInstanceAs (Decidable (Runs.Covers allRuns s))
  | ⟨_, _, _, _, _, .pull seq stop todo⟩, s =>
      inferInstanceAs (Decidable ((seq ≤ s ∧ s ≤ stop) ∨ Runs.Covers todo s))
  | ⟨_, _, _, _, _, .skip batchEnd stop todo⟩, s =>
      inferInstanceAs (Decidable ((batchEnd < s ∧ s ≤ stop) ∨ Runs.Covers todo s))
  | ⟨_, _, _, _, _, .packet pkt queue batchEnd stop todo⟩, s =>
      inferInstanceAs (Decidable ((∃ q ∈ pkt :: queue, q.seq = s) ∨ (batchEnd < s ∧ s ≤ stop)
        ∨ Runs.Covers todo s))
  | ⟨_, _, _, _, _, .advance _ _ queue batchEnd stop todo⟩, s =>
      inferInstanceAs (Decidable ((∃ q ∈ queue, q.seq = s) ∨ (batchEnd < s ∧ s ≤ stop)
        ∨ Runs.Covers todo s))
  | ⟨_, _, _, _, _, .bump⟩, _ => inferInstanceAs (Decidable False)
  | ⟨_, _, _, _, _, .sweep⟩, _ => inferInstanceAs (Decidable False)
  | ⟨_, _, _, _, _, .delete _⟩, _ => inferInstanceAs (Decidable False)
  | ⟨_, _, _, _, _, .done⟩, _ => inferInstanceAs (Decidable False)

/-- The call still comes to this number. -/
def Ahead (r : Receive π) (s : Nat) : Prop := r.front < s ∧ r.Pending s

instance (r : Receive π) (s : Nat) : Decidable (r.Ahead s) :=
  inferInstanceAs (Decidable (_ ∧ _))

/-- Greater than every number the map reported and than the cursor. -/
def Above (r : Receive π) (s : Nat) : Prop :=
  (∀ run ∈ r.allRuns, run.2 < s) ∧ r.lastSeqTotal < s ∧ r.front < s

/-- The call cannot move the cursor to this number any more. -/
def Beyond (r : Receive π) (s : Nat) : Prop :=
  match r.point with
  | .map _ | .scanned _ _ => False
  | .sweep | .delete _ | .done => True
  | _ => r.Above s

instance (r : Receive π) (s : Nat) : Decidable (r.Above s) :=
  inferInstanceAs (Decidable (_ ∧ _ ∧ _))

instance : (r : Receive π) → (s : Nat) → Decidable (r.Beyond s)
  | ⟨_, _, _, _, _, .map _⟩, _ => inferInstanceAs (Decidable False)
  | ⟨_, _, _, _, _, .scanned _ _⟩, _ => inferInstanceAs (Decidable False)
  | ⟨_, _, _, _, _, .sweep⟩, _ => inferInstanceAs (Decidable True)
  | ⟨_, _, _, _, _, .delete _⟩, _ => inferInstanceAs (Decidable True)
  | ⟨_, _, _, _, _, .done⟩, _ => inferInstanceAs (Decidable True)
  | ⟨a, b, c, d, e, .load⟩, s =>
      inferInstanceAs (Decidable (Above (⟨a, b, c, d, e, .load⟩ : Receive π) s))
  | ⟨a, b, c, d, e, .pull f g h⟩, s =>
      inferInstanceAs (Decidable (Above (⟨a, b, c, d, e, .pull f g h⟩ : Receive π) s))
  | ⟨a, b, c, d, e, .skip f g h⟩, s =>
      inferInstanceAs (Decidable (Above (⟨a, b, c, d, e, .skip f g h⟩ : Receive π) s))
  | ⟨a, b, c, d, e, .packet f g h i j⟩, s =>
      inferInstanceAs (Decidable (Above (⟨a, b, c, d, e, .packet f g h i j⟩ : Receive π) s))
  | ⟨a, b, c, d, e, .advance f g h i j k⟩, s =>
      inferInstanceAs (Decidable (Above (⟨a, b, c, d, e, .advance f g h i j k⟩ : Receive π) s))
  | ⟨a, b, c, d, e, .bump⟩, s =>
      inferInstanceAs (Decidable (Above (⟨a, b, c, d, e, .bump⟩ : Receive π) s))

/-- The runs after the current one: later runs of the map. -/
structure Later (r : Receive π) (stop : Nat) (todo : List (Nat × Nat)) : Prop where
  ascending : Runs.Ascending todo
  beyond : ∀ run ∈ todo, stop < run.1
  listed : ∀ run ∈ todo, run ∈ r.allRuns
  current : ∃ run ∈ r.allRuns, run.2 = stop

/-- A batch in ascending order within the current run. -/
structure Batch (queue : List (RawPacket π)) (batchEnd stop : Nat) : Prop where
  sorted : queue.Pairwise (fun a b => a.seq < b.seq)
  within : ∀ q ∈ queue, q.seq ≤ batchEnd
  inRun : batchEnd ≤ stop

/-- The parts of the map are in order. -/
def Ordered (r : Receive π) : Prop :=
  match r.point with
  | .map after => Runs.Ascending r.allRuns ∧ ∀ run ∈ r.allRuns, run.2 ≤ after
  | .scanned runs _ => Runs.Ascending (r.allRuns ++ runs)
  | .pull _ stop todo => Runs.Ascending r.allRuns ∧ r.Later stop todo
  | .skip batchEnd stop todo =>
      Runs.Ascending r.allRuns ∧ r.Later stop todo ∧ batchEnd ≤ stop
  | .packet pkt queue batchEnd stop todo =>
      Runs.Ascending r.allRuns ∧ r.Later stop todo ∧ Batch (pkt :: queue) batchEnd stop
  | .advance _ _ queue batchEnd stop todo =>
      Runs.Ascending r.allRuns ∧ r.Later stop todo ∧ Batch queue batchEnd stop
  | _ => Runs.Ascending r.allRuns

/-- The call passes over nothing that matters: what is neither settled nor ahead came after
it began, and is beyond it. -/
structure Follows (E S N : Nat → Prop) (r : Receive π) : Prop where
  ordered : r.Ordered
  known : ∀ s, E s → S s ∨ r.Ahead s ∨ (r.Beyond s ∧ N s)

variable {E E' S S' N N' : Nat → Prop} {r : Receive π}

theorem Follows.mono (h : r.Follows E S N) (hS : ∀ s, E s → S s → S' s)
    (hN : ∀ s, N s → N' s)
    (hE : ∀ s, E' s → E s ∨ S' s ∨ r.Ahead s ∨ (r.Beyond s ∧ N' s)) : r.Follows E' S' N' where
  ordered := h.ordered
  known s hs := by
    rcases hE s hs with h' | h'
    · exact (h.known s h').imp (hS s h') (Or.imp_right (And.imp_right (hN s)))
    · exact h'

/-! ## Collecting the map -/

theorem follows_start (hE : ∀ s, E s → 0 < s) : (start : Receive π).Follows E S N where
  ordered := ⟨Runs.Ascending.nil, by simp [start]⟩
  known s hs := Or.inr (Or.inl ⟨hE s hs, Or.inr (hE s hs)⟩)

/-- The scan of a page meets every number that matters and was not met before. -/
theorem follows_scan {after : Nat} {l : List Nat} {runs : List (Nat × Nat)} {truncated : Bool}
    (hp : r.point = .map after) (h : r.Follows E S N)
    (hscan : PacketStore.ScanOf 0 l runs truncated) (hl : ∀ s ∈ l, after < s)
    (hE : ∀ s, E s → after < s → s ∈ l) :
    ({ r with point := .scanned runs truncated } : Receive π).Follows E S N where
  ordered := by
    have ho := h.ordered
    simp only [Ordered, hp] at ho
    refine ho.1.append hscan.ascending (fun a ha b hb => ?_)
    have hb' := hl b.1 (hscan.sound b.1 ⟨b, hb, Nat.le_refl _, hscan.ascending.proper b hb⟩).1
    exact Nat.lt_of_le_of_lt (ho.2 a ha) hb'
  known s hs := by
    refine (h.known s hs).imp_right (fun h' => Or.inl ?_)
    simp only [Ahead, Pending, front, Beyond, hp, false_and, or_false] at h' ⊢
    refine ⟨h'.1, ?_⟩
    rw [Runs.covers_append]
    rcases h'.2 with hc | hlt
    · exact Or.inl (Or.inl hc)
    · rcases hscan.complete s (hE s hs hlt) (Or.inl rfl) with hc | ⟨ht, hend⟩
      · exact Or.inl (Or.inr hc)
      · exact Or.inr ⟨ht, hscan.cut ht, hend⟩

theorem follows_onMap {runs : List (Nat × Nat)} {truncated : Bool} {lastSeq : Nat}
    (hp : r.point = .scanned runs truncated) (h : r.Follows E S N) :
    (r.onMap ⟨runs, lastSeq, truncated⟩).Follows E S N := by
  have ho := h.ordered
  have hk := h.known
  simp only [Ordered, hp] at ho
  simp only [Ahead, Pending, front, Beyond, hp, false_and, or_false] at hk
  unfold onMap
  dsimp only
  cases he : Runs.lastEnd? runs with
  | none =>
      have hnil := Runs.lastEnd?_eq_none.mp he
      subst hnil
      refine ⟨by simpa [Ordered] using ho, fun s hs => (hk s hs).imp_right (fun h' => Or.inl ?_)⟩
      exact ⟨h'.1, by simpa [Pending] using h'.2⟩
  | some lastEnd =>
      have hne : runs ≠ [] := by
        rintro rfl
        simp at he
      have hasc : Runs.Ascending runs :=
        ⟨fun q hq => ho.proper q (List.mem_append_right _ hq), (List.pairwise_append.mp ho.ordered).2.1⟩
      cases truncated with
      | true =>
          refine ⟨⟨ho, ?_⟩, fun s hs => (hk s hs).imp_right (fun h' => Or.inl ⟨h'.1, ?_⟩)⟩
          · -- every end is at most the end of the last run
            intro run hrun
            rcases List.mem_append.mp hrun with hrun | hrun
            · obtain ⟨q, hq⟩ := List.exists_mem_of_ne_nil runs hne
              have h1 := (List.pairwise_append.mp ho.ordered).2.2 run hrun q hq
              have h2 := hasc.proper q hq
              have h3 := hasc.le_lastEnd he hq
              omega
            · exact hasc.le_lastEnd he hrun
          · rcases h'.2 with hc | ⟨_, _, hend⟩
            · exact Or.inl hc
            · obtain ⟨q, hq, rfl⟩ := Option.map_eq_some_iff.mp he
              exact Or.inr (hend q (List.mem_of_getLast? hq))
      | false =>
          refine ⟨ho, fun s hs => (hk s hs).imp_right (fun h' => Or.inl ⟨h'.1, ?_⟩)⟩
          rcases h'.2 with hc | ⟨hf, _⟩
          · exact hc
          · exact absurd hf (by simp)

/-! ## The loops -/

/-- The next run to pull: what matters is settled, in the runs left, or above. -/
theorem follows_nextRun (hasc : Runs.Ascending r.allRuns) (todo : List (Nat × Nat))
    (htodo : Runs.Ascending todo) (hlist : ∀ run ∈ todo, run ∈ r.allRuns)
    (hk : ∀ s, E s → S s ∨ (r.cursor < s ∧ Runs.Covers todo s)
      ∨ ((∀ run ∈ r.allRuns, run.2 < s) ∧ r.lastSeqTotal < s ∧ r.cursor < s ∧ N s)) :
    (r.nextRun todo).Follows E S N := by
  induction todo with
  | nil =>
      refine ⟨hasc, fun s hs => ?_⟩
      rcases hk s hs with h | ⟨_, h⟩ | ⟨h1, h2, h3, hn⟩
      · exact Or.inl h
      · exact absurd h Runs.not_covers_nil
      · exact Or.inr (Or.inr ⟨⟨h1, h2, h3⟩, hn⟩)
  | cons run todo ih =>
      obtain ⟨first, stop⟩ := run
      have hsat : ∀ s, r.cursor < s → saturatingAdd r.cursor 1 ≤ s := by
        intro s hs
        unfold saturatingAdd
        omega
      -- a run that ends at or below the cursor, or is empty above it, has nothing to offer
      have hskip : (∀ s, r.cursor < s → ¬ (first ≤ s ∧ s ≤ stop)) →
          (r.nextRun todo).Follows E S N := by
        intro hnone
        refine ih htodo.tail (fun q hq => hlist q (List.mem_cons_of_mem _ hq)) (fun s hs => ?_)
        refine (hk s hs).imp_right (Or.imp_left (fun h => ⟨h.1, ?_⟩))
        exact (Runs.covers_cons.mp h.2).resolve_left (hnone s h.1)
      rw [nextRun]
      split
      · exact hskip (fun s hs h => by omega)
      · split
        · refine ⟨⟨hasc, htodo.tail, (List.pairwise_cons.mp htodo.ordered).1,
            fun q hq => hlist q (List.mem_cons_of_mem _ hq),
            (first, stop), hlist _ List.mem_cons_self, rfl⟩, fun s hs => ?_⟩
          rcases hk s hs with h | ⟨hlt, h⟩ | ⟨h1, h2, h3, hn⟩
          · exact Or.inl h
          · refine Or.inr (Or.inl ⟨hlt, ?_⟩)
            refine (Runs.covers_cons.mp h).imp_left (fun h => ⟨?_, h.2⟩)
            have := hsat s hlt
            exact Nat.max_le.mpr ⟨h.1, this⟩
          · exact Or.inr (Or.inr ⟨⟨h1, h2, h3⟩, hn⟩)
        · refine hskip (fun s hs h => ?_)
          have := hsat s hs
          omega

/-- The next batch of a run, from a number that passes over nothing. -/
theorem follows_nextBatch {seq stop : Nat} {todo : List (Nat × Nat)}
    (hasc : Runs.Ascending r.allRuns) (hl : r.Later stop todo)
    (hk : ∀ s, E s → S s ∨ (r.cursor < s ∧ ((seq ≤ s ∧ s ≤ stop) ∨ Runs.Covers todo s))
      ∨ ((∀ run ∈ r.allRuns, run.2 < s) ∧ r.lastSeqTotal < s ∧ r.cursor < s ∧ N s)) :
    (r.nextBatch seq stop todo).Follows E S N := by
  unfold nextBatch
  split
  · refine ⟨⟨hasc, hl.ascending, hl.beyond, hl.listed, hl.current⟩, fun s hs => ?_⟩
    rcases hk s hs with h | h | ⟨h1, h2, h3, hn⟩
    · exact Or.inl h
    · exact Or.inr (Or.inl h)
    · exact Or.inr (Or.inr ⟨⟨h1, h2, h3⟩, hn⟩)
  · rename_i hgt
    refine follows_nextRun hasc todo hl.ascending hl.listed (fun s hs => ?_)
    refine (hk s hs).imp_right (Or.imp_left (fun h => ⟨h.1, ?_⟩))
    exact h.2.resolve_left (fun h => by omega)

/-- A batch arrives: what matters in its range is in it. -/
theorem follows_onPull {packets : List (RawPacket π)} {seq stop : Nat} {todo : List (Nat × Nat)}
    (hp : r.point = .pull seq stop todo) (h : r.Follows E S N)
    (hsorted : packets.Pairwise (fun a b => a.seq < b.seq))
    (hwithin : ∀ pkt ∈ packets, pkt.seq ≤ batchEnd seq stop)
    (hE : ∀ s, E s → seq ≤ s → s ≤ batchEnd seq stop → ∃ pkt ∈ packets, pkt.seq = s) :
    (r.onPull packets seq stop todo).Follows E S N := by
  have ho := h.ordered
  have hk := h.known
  simp only [Ordered, hp] at ho
  simp only [Ahead, Pending, front, Beyond, Above, hp] at hk
  obtain ⟨hasc, hl⟩ := ho
  have hin : batchEnd seq stop ≤ stop := Nat.min_le_right _ _
  have hsort : packets.insertionSort (fun a b => a.seq ≤ b.seq) = packets :=
    List.Pairwise.insertionSort_eq (hsorted.imp (fun hab => Nat.le_of_lt hab))
  unfold onPull
  rw [hsort]
  cases packets with
  | nil =>
      refine ⟨⟨hasc, ⟨hl.ascending, hl.beyond, hl.listed, hl.current⟩, hin⟩, fun s hs => ?_⟩
      have hout : ∀ s, E s → seq ≤ s → batchEnd seq stop < s := by
        intro s hs hle
        by_contra hgt
        obtain ⟨pkt, hpkt, _⟩ := hE s hs hle (by omega)
        exact List.not_mem_nil hpkt
      obtain ⟨cur, hcur, hcur'⟩ := hl.current
      rcases hk s hs with h' | ⟨_, h' | h'⟩ | ⟨⟨h1, h2, _⟩, hn⟩
      · exact Or.inl h'
      · have := hout s hs h'.1
        exact Or.inr (Or.inl ⟨this, Or.inl ⟨this, h'.2⟩⟩)
      · have ⟨q, hq, hb, _⟩ := h'
        have := hl.beyond q hq
        refine Or.inr (Or.inl ⟨?_, Or.inr h'⟩)
        change batchEnd seq stop < s
        omega
      · have := h1 cur hcur
        exact Or.inr (Or.inr ⟨⟨h1, h2, show batchEnd seq stop < s by omega⟩, hn⟩)
  | cons pkt queue =>
      refine ⟨⟨hasc, ⟨hl.ascending, hl.beyond, hl.listed, hl.current⟩, hsorted, hwithin, hin⟩,
        fun s hs => ?_⟩
      refine (hk s hs).imp_right (Or.imp_left (fun h' => ⟨h'.1, ?_⟩))
      rcases h'.2 with h' | h'
      · by_cases hle : s ≤ batchEnd seq stop
        · exact Or.inl (hE s hs h'.1 hle)
        · exact Or.inr (Or.inl ⟨Nat.lt_of_not_le hle, h'.2⟩)
      · exact Or.inr (Or.inr h')

/-- The end of an empty batch becomes the cursor. -/
theorem follows_skip {batchEnd stop : Nat} {todo : List (Nat × Nat)}
    (hp : r.point = .skip batchEnd stop todo) (h : r.Follows E S N) :
    (({ r with cursor := batchEnd } : Receive π).nextBatch (saturatingAdd batchEnd 1) stop
      todo).Follows E S N := by
  have ho := h.ordered
  have hk := h.known
  simp only [Ordered, hp] at ho
  simp only [Ahead, Pending, front, Beyond, Above, hp] at hk
  obtain ⟨hasc, hl, _⟩ := ho
  refine follows_nextBatch hasc ⟨hl.ascending, hl.beyond, hl.listed, hl.current⟩ (fun s hs => ?_)
  rcases hk s hs with h' | ⟨hlt, h'⟩ | ⟨⟨h1, h2, h3⟩, hn⟩
  · exact Or.inl h'
  · refine Or.inr (Or.inl ⟨hlt, h'.imp_left (fun h' => ⟨?_, h'.2⟩)⟩)
    unfold saturatingAdd
    omega
  · exact Or.inr (Or.inr ⟨h1, h2, h3, hn⟩)

theorem mem_dropSkipped {skipUntil : Option Nat} {queue : List (RawPacket π)} {q : RawPacket π}
    (hq : q ∈ queue) (hgt : ∀ u, skipUntil = some u → u < q.seq) :
    q ∈ dropSkipped skipUntil queue := by
  cases skipUntil with
  | none => exact hq
  | some u =>
      have hq' := hq
      rw [← List.takeWhile_append_dropWhile (p := fun pkt => decide (pkt.seq ≤ u)) (l := queue)] at hq'
      rcases List.mem_append.mp hq' with h | h
      · have hle : q.seq ≤ u := by simpa using List.mem_takeWhile_imp h
        exact absurd (hgt u rfl) (Nat.not_lt.mpr hle)
      · exact h

theorem dropSkipped_sublist (skipUntil : Option Nat) (queue : List (RawPacket π)) :
    (dropSkipped skipUntil queue).Sublist queue := by
  cases skipUntil with
  | none => exact List.Sublist.refl _
  | some u => exact List.dropWhile_sublist _

/-- A packet is dealt with, and so is the body it may have announced. -/
theorem follows_packet {pkt : RawPacket π} {queue : List (RawPacket π)} {batchEnd stop : Nat}
    {todo : List (Nat × Nat)} {target : Nat} {own : Option MessageId} {skipUntil : Option Nat}
    {messages : List Message} {errors : List Nat}
    (hp : r.point = .packet pkt queue batchEnd stop todo) (h : r.Follows E S N)
    (hS : ∀ s, E s → S s → S' s) (hpkt : E pkt.seq → S' pkt.seq)
    (hbody : ∀ s, pkt.seq < s → s ≤ target → E s → S' s)
    (hskip : ∀ u, skipUntil = some u → u = target) :
    ({ r with
        messages := messages
        decryptErrors := errors
        point := .advance target own (dropSkipped skipUntil queue) batchEnd stop todo } :
      Receive π).Follows E S' N := by
  have ho := h.ordered
  have hk := h.known
  simp only [Ordered, hp] at ho
  simp only [Ahead, Pending, front, Beyond, Above, hp] at hk
  obtain ⟨hasc, hl, hb⟩ := ho
  have hhead := List.pairwise_cons.mp hb.sorted
  have hsub := dropSkipped_sublist skipUntil queue
  obtain ⟨cur, hcur, hcur'⟩ := hl.current
  have hpktEnd : pkt.seq ≤ batchEnd := hb.within pkt List.mem_cons_self
  have hin := hb.inRun
  refine ⟨⟨hasc, ⟨hl.ascending, hl.beyond, hl.listed, hl.current⟩, hhead.2.sublist hsub,
    fun q hq => hb.within q (List.mem_cons_of_mem _ (hsub.subset hq)), hin⟩, fun s hs => ?_⟩
  by_cases hle : s ≤ target
  · -- at or below the new cursor: the packet itself, or its body
    left
    by_cases hlt : pkt.seq < s
    · exact hbody s hlt hle hs
    · rcases hk s hs with h' | ⟨_, h' | h' | h'⟩ | ⟨⟨h1, _⟩, _⟩
      · exact hS s hs h'
      · obtain ⟨q, hq, rfl⟩ := h'
        rcases List.mem_cons.mp hq with rfl | hq
        · exact hpkt hs
        · exact absurd (hhead.1 q hq) hlt
      · omega
      · obtain ⟨q, hq, hb', _⟩ := h'
        have := hl.beyond q hq
        omega
      · have := h1 cur hcur
        omega
  · have hgt : target < s := Nat.lt_of_not_le hle
    rcases hk s hs with h' | ⟨_, h' | h'⟩ | ⟨⟨h1, h2, _⟩, hn⟩
    · exact Or.inl (hS s hs h')
    · obtain ⟨q, hq, rfl⟩ := h'
      rcases List.mem_cons.mp hq with rfl | hq
      · exact Or.inl (hpkt hs)
      · refine Or.inr (Or.inl ⟨hgt, Or.inl ⟨q, mem_dropSkipped hq (fun u hu => ?_), rfl⟩⟩)
        rw [hskip u hu]
        exact hgt
    · exact Or.inr (Or.inl ⟨hgt, Or.inr h'⟩)
    · exact Or.inr (Or.inr ⟨⟨h1, h2, hgt⟩, hn⟩)

/-- The cursor moves over the packet just dealt with. -/
theorem follows_advance {target : Nat} {own : Option MessageId} {queue : List (RawPacket π)}
    {batchEnd stop : Nat} {todo : List (Nat × Nat)} {messages : List Message}
    (hp : r.point = .advance target own queue batchEnd stop todo) (h : r.Follows E S N) :
    (({ r with cursor := target, messages := messages } : Receive π).nextPacket queue batchEnd
      stop todo).Follows E S N := by
  have ho := h.ordered
  have hk := h.known
  simp only [Ordered, hp] at ho
  simp only [Ahead, Pending, front, Beyond, Above, hp] at hk
  obtain ⟨hasc, hl, hb⟩ := ho
  have hl' : ({ r with cursor := target, messages := messages } : Receive π).Later stop todo :=
    ⟨hl.ascending, hl.beyond, hl.listed, hl.current⟩
  unfold nextPacket
  cases queue with
  | cons pkt queue =>
      refine ⟨⟨hasc, ⟨hl.ascending, hl.beyond, hl.listed, hl.current⟩, hb⟩, fun s hs => ?_⟩
      rcases hk s hs with h' | h' | ⟨h', hn⟩
      · exact Or.inl h'
      · exact Or.inr (Or.inl h')
      · exact Or.inr (Or.inr ⟨h', hn⟩)
  | nil =>
      refine follows_nextBatch hasc hl' (fun s hs => ?_)
      rcases hk s hs with h' | ⟨hlt, h' | h'⟩ | ⟨⟨h1, h2, h3⟩, hn⟩
      · exact Or.inl h'
      · obtain ⟨q, hq, _⟩ := h'
        exact absurd hq List.not_mem_nil
      · refine Or.inr (Or.inl ⟨hlt, h'.imp_left (fun h' => ⟨?_, h'.2⟩)⟩)
        have : target + 1 ≤ s := hlt
        unfold saturatingAdd
        dsimp only
        omega
      · exact Or.inr (Or.inr ⟨h1, h2, h3, hn⟩)

/-- The stored cursor is read: below it everything is settled. -/
theorem follows_load {cursor : Nat} (hp : r.point = .load) (h : r.Follows E S N)
    (hc : ∀ s, E s → s ≤ cursor → S s) :
    (({ r with
        allRuns := r.allRuns.insertionSort (fun a b => a.1 ≤ b.1)
        cursor := cursor } : Receive π).nextRun
      (r.allRuns.insertionSort (fun a b => a.1 ≤ b.1))).Follows E S N := by
  have hasc : Runs.Ascending r.allRuns := by simpa [Ordered, hp] using h.ordered
  have hk := h.known
  simp only [Ahead, Pending, front, Beyond, Above, hp] at hk
  rw [hasc.insertionSort_eq]
  refine follows_nextRun (r := { r with allRuns := r.allRuns, cursor := cursor }) hasc r.allRuns
    hasc (fun _ h => h) (fun s hs => ?_)
  by_cases hle : s ≤ cursor
  · exact Or.inl (hc s hs hle)
  · have hgt : cursor < s := Nat.lt_of_not_le hle
    rcases hk s hs with h' | ⟨_, h'⟩ | ⟨⟨h1, h2, _⟩, hn⟩
    · exact Or.inl h'
    · exact Or.inr (Or.inl ⟨hgt, h'⟩)
    · exact Or.inr (Or.inr ⟨h1, h2, hgt, hn⟩)

/-- The cursor reaches the end of the map: from here on nothing is ahead. -/
theorem follows_bump {cursor : Nat} (hp : r.point = .bump) (h : r.Follows E S N) :
    ({ r with cursor := cursor, point := .sweep } : Receive π).Follows E S N where
  ordered := by simpa [Ordered, hp] using h.ordered
  known s hs := by
    have hk := h.known s hs
    simp only [Ahead, Pending, Beyond, hp, and_false, false_or] at hk
    exact hk.imp_right (fun h' => Or.inr ⟨trivial, h'.2⟩)

/-- Comparing with the map moves no cursor. -/
theorem follows_sweep {point : Point π} (hp : r.point = .sweep ∨ ∃ ts, r.point = .delete ts)
    (hpoint : point = .done ∨ ∃ ts, point = .delete ts) (h : r.Follows E S N) :
    ({ r with point := point } : Receive π).Follows E S N where
  ordered := by
    have ho : Runs.Ascending r.allRuns := by
      rcases hp with hp | ⟨ts, hp⟩ <;> simpa [Ordered, hp] using h.ordered
    rcases hpoint with rfl | ⟨ts, rfl⟩ <;> exact ho
  known s hs := by
    have hk : S s ∨ N s := by
      have := h.known s hs
      rcases hp with hp | ⟨ts, hp⟩ <;>
        simpa [Ahead, Pending, Beyond, hp] using this
    refine hk.imp_right (fun hn => Or.inr ⟨?_, hn⟩)
    rcases hpoint with rfl | ⟨ts, rfl⟩ <;> trivial

/-- A returned `receive` has settled everything that matters and is not new. -/
theorem Follows.done (h : r.Follows E S N) (hp : r.point = .done) {s : Nat} (hs : E s) :
    S s ∨ N s := by
  have := h.known s hs
  simpa [Ahead, Pending, Beyond, hp] using this

end Receive

/-- Everything that matters at or below a cursor is settled. -/
def Settled (E S : Nat → Prop) (cursor : Nat) : Prop := ∀ s, E s → s ≤ cursor → S s

section Settled

variable {π : Type} {E S N : Nat → Prop} {r : Receive π}

/-- The cursor may be raised to anything below which all is settled. -/
theorem Settled.raise {st : LocalStore} {key : DialogueKey} {seq : Nat}
    (h : Settled E S (st.getLastPulledSeq key)) (hseq : Settled E S seq) :
    Settled E S ((st.setLastPulledSeq key seq).getLastPulledSeq key) := by
  intro s hs hle
  rcases LocalStore.getLastPulledSeq_setLastPulledSeq st key seq with h' | h'
  · exact h s hs (h' ▸ hle)
  · exact hseq s hs (Nat.le_trans hle h')

/-- What lies at or below the front of a running call is settled. -/
theorem Receive.Follows.settled (h : r.Follows E S N)
    (hp : ∀ s, r.Beyond s → r.front < s) : Settled E S r.front := by
  intro s hs hle
  rcases h.known s hs with h' | h' | h'
  · exact h'
  · exact absurd h'.1 (Nat.not_lt.mpr hle)
  · exact absurd (hp s h'.1) (Nat.not_lt.mpr hle)

end Settled

end Paranoia
