import Mathlib.Logic.Function.Iterate
import Paranoia.Client.Outgoing
import Paranoia.Proof.Keys

/-!
# Maps are exact

A page of the map reports the live numbers of the range in separate runs, and says it was cut
short exactly when there are more. The two loops that ask for page after page therefore end,
on a server that stands still, with exactly the live numbers of their range.
-/

namespace Paranoia

/-! ## A page -/

namespace PacketStore

/-- What an answer to a map request for `(afterSeq, toSeq]` says about the live numbers: its runs
are those of the numbers in the range, as far as it goes, and it was cut short if there are
more. -/
structure PageOf (afterSeq toSeq : Nat) (live : List Nat) (m : MapResult) : Prop where
  ascending : Runs.Ascending m.runs
  separated : m.runs.Pairwise (fun a b => a.2 + 1 < b.1)
  covers : ∀ s, Runs.Covers m.runs s ↔ s ∈ live ∧ afterSeq < s ∧ (toSeq = 0 ∨ s ≤ toSeq) ∧
    (m.truncated = true → ∃ r ∈ m.runs, s ≤ r.2)
  truncated : m.truncated = true ↔ ∃ s ∈ live, afterSeq < s ∧ (toSeq = 0 ∨ s ≤ toSeq) ∧
    ∀ r ∈ m.runs, r.2 < s
  cut : m.truncated = true → m.runs ≠ []

/-- The loop never leaves two runs that touch, and stops early only before a number of the
range. -/
theorem scanRuns_tight (toSeq maxRuns : Nat) :
    ∀ (l : List Nat) (runs : List (Nat × Nat)) (current : Option (Nat × Nat)),
      l.Pairwise (· < ·) → (current = none → runs = []) →
      (∀ r ∈ runs ++ current.toList, r.1 ≤ r.2 ∧ ∀ s ∈ l, r.2 < s) →
      (runs ++ current.toList).Pairwise (fun a b => a.2 + 1 < b.1) →
      (scanRuns toSeq maxRuns l runs current).1.Pairwise (fun a b => a.2 + 1 < b.1) ∧
        ((scanRuns toSeq maxRuns l runs current).2 = true → 0 < maxRuns →
          ∃ s ∈ l, (toSeq = 0 ∨ s ≤ toSeq) ∧
            ∀ r ∈ (scanRuns toSeq maxRuns l runs current).1, r.2 < s) := by
  intro l
  induction l with
  | nil =>
      intro runs current _ _ _ hsep
      rw [scanRuns.eq_def]
      exact ⟨hsep, fun h => absurd h Bool.false_ne_true⟩
  | cons seq rest ih =>
      intro runs current hl hnone hlt hsep
      obtain ⟨hrest, hl'⟩ := List.pairwise_cons.mp hl
      -- what is met later is met now
      have hlater : ∀ {res : List (Nat × Nat) × Bool},
          (res.1.Pairwise (fun a b => a.2 + 1 < b.1) ∧ (res.2 = true → 0 < maxRuns →
            ∃ s ∈ rest, (toSeq = 0 ∨ s ≤ toSeq) ∧ ∀ r ∈ res.1, r.2 < s)) →
          res.1.Pairwise (fun a b => a.2 + 1 < b.1) ∧ (res.2 = true → 0 < maxRuns →
            ∃ s ∈ seq :: rest, (toSeq = 0 ∨ s ≤ toSeq) ∧ ∀ r ∈ res.1, r.2 < s) := by
        rintro res ⟨h, hmore⟩
        refine ⟨h, fun ht hm => ?_⟩
        obtain ⟨s, hs, hin, hbeyond⟩ := hmore ht hm
        exact ⟨s, List.mem_cons_of_mem _ hs, hin, hbeyond⟩
      rw [scanRuns.eq_def]
      dsimp only
      split
      · exact ⟨hsep, fun h => absurd h Bool.false_ne_true⟩
      · rename_i hto
        have hin : toSeq = 0 ∨ seq ≤ toSeq := by omega
        cases current with
        | none =>
            obtain rfl := hnone rfl
            dsimp only
            split
            · rename_i hfull
              refine ⟨List.Pairwise.nil, fun _ hm => ?_⟩
              rw [List.length_nil] at hfull
              omega
            · refine hlater (ih [] (some (seq, seq)) hl' (fun h => absurd h (by simp)) ?_
                (List.pairwise_singleton _ _))
              intro r hr
              rw [List.mem_singleton.mp hr]
              exact ⟨Nat.le_refl _, hrest⟩
        | some cur =>
            obtain ⟨first, last⟩ := cur
            have hcur := hlt (first, last) (List.mem_append_right _ (List.mem_singleton_self _))
            have hbefore := List.pairwise_append.mp hsep
            dsimp only
            split
            · -- the run grows
              refine hlater (ih runs (some (first, seq)) hl' (fun h => absurd h (by simp)) ?_ ?_)
              · intro r hr
                rcases List.mem_append.mp hr with hr | hr
                · have h := hlt r (List.mem_append_left _ hr)
                  exact ⟨h.1, fun s hs => h.2 s (List.mem_cons_of_mem _ hs)⟩
                · rw [List.mem_singleton.mp hr]
                  have h := hcur.2 seq List.mem_cons_self
                  exact ⟨Nat.le_trans hcur.1 (Nat.le_of_lt h), hrest⟩
              · refine List.pairwise_append.mpr ⟨hbefore.1, List.pairwise_singleton _ _, ?_⟩
                intro a ha b hb
                rw [List.mem_singleton.mp hb]
                exact hbefore.2.2 a ha (first, last) (List.mem_singleton_self _)
            · rename_i hgap
              split
              · -- a run too many
                refine ⟨hsep, fun _ _ => ⟨seq, List.mem_cons_self, hin, fun r hr => ?_⟩⟩
                exact (hlt r hr).2 seq List.mem_cons_self
              · -- a new run, which the others do not touch
                refine hlater (ih (runs ++ [(first, last)]) (some (seq, seq)) hl'
                  (fun h => absurd h (by simp)) ?_ ?_)
                · intro r hr
                  rcases List.mem_append.mp hr with hr | hr
                  · have h := hlt r hr
                    exact ⟨h.1, fun s hs => h.2 s (List.mem_cons_of_mem _ hs)⟩
                  · rw [List.mem_singleton.mp hr]
                    exact ⟨Nat.le_refl _, hrest⟩
                · refine List.pairwise_append.mpr ⟨hsep, List.pairwise_singleton _ _, ?_⟩
                  intro a ha b hb
                  rw [List.mem_singleton.mp hb]
                  have hlast := hcur.2 seq List.mem_cons_self
                  rcases List.mem_append.mp ha with ha | ha
                  · have h := hbefore.2.2 a ha (first, last) (List.mem_singleton_self _)
                    have := hcur.1
                    show a.2 + 1 < seq
                    dsimp only at h this
                    omega
                  · rw [List.mem_singleton.mp ha]
                    show last + 1 < seq
                    dsimp only at hlast
                    omega

variable {π : Type}

/-- **A page is exact.** -/
theorem map_page (ps : PacketStore π) (dialogue : DialogueKey)
    (hrange : ∀ s ∈ ps.live dialogue, s < u64Size) {afterSeq toSeq maxRuns : Nat}
    (hmax : 0 < maxRuns) {m : MapResult} (h : ps.map dialogue afterSeq toSeq maxRuns = .ok m) :
    PageOf afterSeq toSeq (ps.live dialogue) m := by
  unfold map at h
  split at h
  · cases h
  · cases h
    by_cases hafter : afterSeq + 1 < u64Size
    · have hscan := mapRuns_spec ps dialogue toSeq hmax hafter
      have hmem : ∀ s, s ∈ (ps.live dialogue).filter (fun s => afterSeq + 1 ≤ s) ↔
          s ∈ ps.live dialogue ∧ afterSeq < s := by
        intro s
        rw [List.mem_filter, decide_eq_true_eq, Nat.succ_le_iff]
      have htight := scanRuns_tight toSeq maxRuns
        ((ps.live dialogue).filter (fun s => afterSeq + 1 ≤ s)) [] none
        ((ps.live_sorted dialogue).sublist List.filter_sublist) (fun _ => rfl)
        (fun r hr => absurd hr List.not_mem_nil) List.Pairwise.nil
      have heq : ps.mapRuns dialogue afterSeq toSeq maxRuns = scanRuns toSeq maxRuns
          ((ps.live dialogue).filter (fun s => afterSeq + 1 ≤ s)) [] none := by
        rw [mapRuns, checkedAdd_eq_some.mpr ⟨rfl, hafter⟩]
      rw [← heq] at htight
      refine ⟨hscan.ascending, htight.1, fun s => ⟨fun hs => ?_, ?_⟩, ⟨fun ht => ?_, ?_⟩,
        hscan.cut⟩
      · obtain ⟨hl, hto⟩ := hscan.sound s hs
        obtain ⟨r, hr, _, hle⟩ := hs
        exact ⟨((hmem s).mp hl).1, ((hmem s).mp hl).2, hto, fun _ => ⟨r, hr, hle⟩⟩
      · rintro ⟨hl, hlt, hto, hcut⟩
        refine (hscan.complete s ((hmem s).mpr ⟨hl, hlt⟩) hto).resolve_right ?_
        rintro ⟨ht, hbeyond⟩
        obtain ⟨r, hr, hle⟩ := hcut ht
        exact absurd (hbeyond r hr) (Nat.not_lt.mpr hle)
      · obtain ⟨s, hs, hto, hbeyond⟩ := htight.2 ht hmax
        exact ⟨s, ((hmem s).mp hs).1, ((hmem s).mp hs).2, hto, hbeyond⟩
      · rintro ⟨s, hs, hlt, hto, hbeyond⟩
        rcases hscan.complete s ((hmem s).mpr ⟨hs, hlt⟩) hto with ⟨r, hr, _, hle⟩ | ⟨ht, _⟩
        · exact absurd (hbeyond r hr) (Nat.not_lt.mpr hle)
        · exact ht
    · -- nothing is beyond the greatest number there is
      have hnone : checkedAdd afterSeq 1 = none := if_neg hafter
      have hbeyond : ∀ s ∈ ps.live dialogue, ¬ afterSeq < s := by
        intro s hs hlt
        have := hrange s hs
        omega
      rw [mapRuns, hnone]
      refine ⟨Runs.Ascending.nil, List.Pairwise.nil, fun s => ⟨fun hs => ?_, ?_⟩,
        ⟨fun ht => absurd ht Bool.false_ne_true, ?_⟩, fun ht => absurd ht Bool.false_ne_true⟩
      · exact absurd hs Runs.not_covers_nil
      · exact fun hs => absurd hs.2.1 (hbeyond s hs.1)
      · rintro ⟨s, hs, hlt, _⟩
        exact absurd hlt (hbeyond s hs)

namespace PageOf

variable {after toSeq : Nat} {live : List Nat} {m : MapResult} {lastEnd s : Nat}

theorem of_runs_nil (h : PageOf after toSeq live m) (hr : m.runs = []) (hs : s ∈ live)
    (hto : toSeq = 0 ∨ s ≤ toSeq) : s ≤ after := by
  by_contra hlt
  have hcov := (h.covers s).mpr ⟨hs, Nat.lt_of_not_le hlt, hto, fun ht => absurd hr (h.cut ht)⟩
  rw [hr] at hcov
  exact Runs.not_covers_nil hcov

/-- The last run ends with a number of the range. -/
theorem lastEnd_mem (h : PageOf after toSeq live m) (he : Runs.lastEnd? m.runs = some lastEnd) :
    lastEnd ∈ live ∧ after < lastEnd ∧ (toSeq = 0 ∨ lastEnd ≤ toSeq) := by
  obtain ⟨r, hr, rfl⟩ := Option.map_eq_some_iff.mp he
  have hmem := List.mem_of_getLast? hr
  have hcov := (h.covers r.2).mp ⟨r, hmem, h.ascending.proper r hmem, Nat.le_refl _⟩
  exact ⟨hcov.1, hcov.2.1, hcov.2.2.1⟩

/-- A page that was cut short reports the numbers up to its last end. -/
theorem covers_of_truncated (h : PageOf after toSeq live m) (ht : m.truncated = true)
    (he : Runs.lastEnd? m.runs = some lastEnd) :
    Runs.Covers m.runs s ↔ s ∈ live ∧ after < s ∧ (toSeq = 0 ∨ s ≤ toSeq) ∧ s ≤ lastEnd := by
  rw [h.covers]
  refine and_congr_right (fun _ => and_congr_right (fun _ => and_congr_right (fun _ => ?_)))
  constructor
  · intro hcut
    obtain ⟨r, hr, hle⟩ := hcut ht
    exact Nat.le_trans hle (h.ascending.le_lastEnd he hr)
  · intro hle _
    obtain ⟨r, hr, rfl⟩ := Option.map_eq_some_iff.mp he
    exact ⟨r, List.mem_of_getLast? hr, hle⟩

/-- One that was not reports them all. -/
theorem covers_of_whole (h : PageOf after toSeq live m) (ht : m.truncated = false) :
    Runs.Covers m.runs s ↔ s ∈ live ∧ after < s ∧ (toSeq = 0 ∨ s ≤ toSeq) := by
  rw [h.covers, ht]
  simp

end PageOf

end PacketStore

/-! ## The loops -/

section Loops

variable {π : Type} {live : List Nat}

/-- One page of the loop in `receive`; `serve` answers a map request. -/
def Receive.mapRound (serve : Nat → Nat → Except String MapResult) (r : Receive π) : Receive π :=
  match r.point with
  | .map after =>
      match serve after 0 with
      | .ok m => r.onMap m
      | .error _ => r
  | _ => r

/-- One page of the loop in `existingSeqs`. -/
def Task.existingRound (serve : Nat → Nat → Except String MapResult) (outer : Outer π) :
    Outer π :=
  match outer with
  | .existing _ t after _ =>
      match serve after (t.headerSeq + t.chunkCount) with
      | .ok m =>
          match onExisting outer (some m) with
          | some (some task) => task.outer
          | _ => outer
      | .error _ => outer
  | _ => outer

variable {serve : Nat → Nat → Except String MapResult}

open PacketStore in
/-- **The loop in `receive` ends with the whole map.** Each page goes beyond the last one. -/
theorem mapRound_ends (hserve : ∀ after, ∃ m, serve after 0 = .ok m ∧ PageOf after 0 live m)
    (hrange : ∀ s ∈ live, s < u64Size) :
    ∀ (todo after : Nat) (r : Receive π), u64Size ≤ todo + after → r.point = .map after →
      Runs.Ascending r.allRuns →
      (∀ s, Runs.Covers r.allRuns s ↔ s ∈ live ∧ 0 < s ∧ s ≤ after) →
      ∃ k, ((Receive.mapRound serve)^[k] r).point = .load ∧
        Runs.Ascending ((Receive.mapRound serve)^[k] r).allRuns ∧
        ∀ s, Runs.Covers ((Receive.mapRound serve)^[k] r).allRuns s ↔ s ∈ live ∧ 0 < s := by
  intro todo
  induction todo with
  | zero =>
      intro after r hle hp hasc hcov
      obtain ⟨m, hm, hpage⟩ := hserve after
      -- there is nothing beyond
      have hnil : m.runs = [] := by
        by_contra hne
        cases he : Runs.lastEnd? m.runs with
        | none => exact hne (Runs.lastEnd?_eq_none.mp he)
        | some lastEnd =>
            obtain ⟨hl, hlt, _⟩ := hpage.lastEnd_mem he
            have := hrange _ hl
            omega
      have hround : Receive.mapRound serve r
          = { r with lastSeqTotal := max r.lastSeqTotal m.lastSeq, point := .load } := by
        unfold Receive.mapRound
        simp only [hp, hm, Receive.onMap, hnil, Runs.lastEnd?_nil]
      refine ⟨1, ?_⟩
      rw [Function.iterate_one, hround]
      refine ⟨rfl, hasc, fun s => (hcov s).trans ?_⟩
      exact ⟨fun h => ⟨h.1, h.2.1⟩, fun h => ⟨h.1, h.2, hpage.of_runs_nil hnil h.1 (Or.inl rfl)⟩⟩
  | succ todo ih =>
      intro after r hle hp hasc hcov
      obtain ⟨m, hm, hpage⟩ := hserve after
      have hround : Receive.mapRound serve r = r.onMap m := by
        unfold Receive.mapRound
        simp only [hp, hm]
      -- the runs of the page lie beyond those of the pages before
      have happend : Runs.Ascending (r.allRuns ++ m.runs) := by
        refine hasc.append hpage.ascending (fun a ha b hb => ?_)
        have h1 := ((hcov a.2).mp ⟨a, ha, hasc.proper a ha, Nat.le_refl _⟩).2.2
        have h2 := ((hpage.covers b.1).mp ⟨b, hb, Nat.le_refl _, hpage.ascending.proper b hb⟩).2.1
        omega
      cases he : Runs.lastEnd? m.runs with
      | none =>
          have hnil := Runs.lastEnd?_eq_none.mp he
          refine ⟨1, ?_⟩
          rw [Function.iterate_one, hround]
          simp only [Receive.onMap, he]
          refine ⟨trivial, hasc, fun s => (hcov s).trans ?_⟩
          exact ⟨fun h => ⟨h.1, h.2.1⟩,
            fun h => ⟨h.1, h.2, hpage.of_runs_nil hnil h.1 (Or.inl rfl)⟩⟩
      | some lastEnd =>
          obtain ⟨_, hlt, _⟩ := hpage.lastEnd_mem he
          cases ht : m.truncated with
          | false =>
              refine ⟨1, ?_⟩
              rw [Function.iterate_one, hround]
              simp only [Receive.onMap, he, ht, Bool.false_eq_true, ↓reduceIte]
              refine ⟨trivial, happend, fun s => ?_⟩
              rw [Runs.covers_append, hcov, hpage.covers_of_whole ht]
              constructor
              · rintro (h | h)
                · exact ⟨h.1, h.2.1⟩
                · exact ⟨h.1, by omega⟩
              · intro h
                by_cases hs : s ≤ after
                · exact Or.inl ⟨h.1, h.2, hs⟩
                · exact Or.inr ⟨h.1, by omega, Or.inl rfl⟩
          | true =>
              have hnext : (r.onMap m).point = .map lastEnd ∧
                  (r.onMap m).allRuns = r.allRuns ++ m.runs := by
                simp only [Receive.onMap, he, ht, ↓reduceIte, and_self]
              obtain ⟨k, hk⟩ := ih lastEnd (r.onMap m) (by omega) hnext.1
                (hnext.2 ▸ happend) (by
                  intro s
                  rw [hnext.2, Runs.covers_append, hcov, hpage.covers_of_truncated ht he]
                  constructor
                  · rintro (h | h)
                    · exact ⟨h.1, h.2.1, by omega⟩
                    · exact ⟨h.1, by omega, h.2.2.2⟩
                  · intro h
                    by_cases hs : s ≤ after
                    · exact Or.inl ⟨h.1, h.2.1, hs⟩
                    · exact Or.inr ⟨h.1, by omega, Or.inl rfl, h.2.2⟩)
              refine ⟨k + 1, ?_⟩
              rw [Function.iterate_succ_apply, hround]
              exact hk

open PacketStore in
/-- **The loop in `existingSeqs` ends with the numbers of its range.** -/
theorem existingRound_ends {mode : Mode} {t : OutboundTransfer}
    (hserve : ∀ after, after < t.headerSeq + t.chunkCount →
      ∃ m, serve after (t.headerSeq + t.chunkCount) = .ok m ∧
        PageOf after (t.headerSeq + t.chunkCount) live m) :
    ∀ (todo after : Nat) (present : List (Nat × Nat)),
      t.headerSeq + t.chunkCount ≤ todo + after → after < t.headerSeq + t.chunkCount →
      ∃ k present', (Task.existingRound serve)^[k] (.existing mode t after present : Outer π)
          = .transfer mode t present' 0 ∧
        ∀ s, Runs.Covers present' s ↔ Runs.Covers present s ∨
          (s ∈ live ∧ after < s ∧ s ≤ t.headerSeq + t.chunkCount) := by
  intro todo
  induction todo with
  | zero =>
      intro after present hle hlt
      omega
  | succ todo ih =>
      intro after present hle hlt
      obtain ⟨m, hm, hpage⟩ := hserve after hlt
      have hpos : t.headerSeq + t.chunkCount ≠ 0 := by omega
      -- a page that is not cut short is the last one
      have hwhole : m.truncated = false → ∃ k present',
          (Task.existingRound serve)^[k] (.existing mode t after present : Outer π)
            = .transfer mode t present' 0 ∧
          ∀ s, Runs.Covers present' s ↔ Runs.Covers present s ∨
            (s ∈ live ∧ after < s ∧ s ≤ t.headerSeq + t.chunkCount) := by
        intro ht
        refine ⟨1, present ++ m.runs, ?_, fun s => ?_⟩
        · rw [Function.iterate_one]
          simp only [Task.existingRound, hm, Task.onExisting, ht, Task.goOn]
        · rw [Runs.covers_append, hpage.covers_of_whole ht]
          simp only [hpos, false_or]
      cases ht : m.truncated with
      | false => exact hwhole ht
      | true =>
          cases he : Runs.lastEnd? m.runs with
          | none => exact absurd (Runs.lastEnd?_eq_none.mp he) (hpage.cut ht)
          | some lastEnd =>
              obtain ⟨_, hgt, _⟩ := hpage.lastEnd_mem he
              -- there is more, so the range goes on
              have hmore : lastEnd < t.headerSeq + t.chunkCount := by
                obtain ⟨s, _, _, hto, hbeyond⟩ := hpage.truncated.mp ht
                obtain ⟨r, hr, rfl⟩ := Option.map_eq_some_iff.mp he
                have := hbeyond r (List.mem_of_getLast? hr)
                omega
              have hround : Task.existingRound serve (.existing mode t after present : Outer π)
                  = .existing mode t lastEnd (present ++ m.runs) := by
                simp only [Task.existingRound, hm, Task.onExisting, ht, he, if_pos hmore, Task.goOn]
              obtain ⟨k, present', hk, hcov⟩ := ih lastEnd (present ++ m.runs) (by omega) hmore
              refine ⟨k + 1, present', ?_, fun s => ?_⟩
              · rw [Function.iterate_succ_apply, hround]
                exact hk
              · rw [hcov, Runs.covers_append, hpage.covers_of_truncated ht he, or_assoc]
                refine or_congr_right ?_
                constructor
                · rintro (h | h)
                  · exact ⟨h.1, h.2.1, by omega⟩
                  · exact ⟨h.1, by omega, h.2.2⟩
                · intro h
                  by_cases hs : s ≤ lastEnd
                  · exact Or.inl ⟨h.1, h.2.1, Or.inr h.2.2, hs⟩
                  · exact Or.inr ⟨h.1, by omega, h.2.2⟩

end Loops

namespace KeyStore

variable {ν π : Type}

/-- Every answer the server gives is an exact page. -/
theorem map_page (ks : KeyStore ν) (id : DialogueId) {afterSeq toSeq maxRuns : Nat}
    (hmax : 0 < maxRuns) (hvalid : ¬ (toSeq ≠ 0 ∧ toSeq ≤ afterSeq)) :
    ∃ m, ks.map id afterSeq toSeq maxRuns = .ok m ∧
      PacketStore.PageOf afterSeq toSeq (ks.live id) m := by
  -- one dialogue is as good as any other
  let dialogue : DialogueKey := ⟨"", ""⟩
  have heq := map_eq (fun _ => id) ks dialogue afterSeq toSeq maxRuns
  have hlive : (ks.packets (fun _ => id)).live dialogue = ks.live id := packets_live _ ks dialogue
  have hok : ∃ m, (ks.packets (fun _ => id)).map dialogue afterSeq toSeq maxRuns = .ok m := by
    unfold PacketStore.map
    rw [if_neg hvalid]
    exact ⟨_, rfl⟩
  obtain ⟨m, hm⟩ := hok
  refine ⟨m, heq.trans hm, ?_⟩
  rw [← hlive]
  refine PacketStore.map_page _ dialogue (fun s hs => ?_) hmax hm
  rw [hlive] at hs
  exact (mem_live.mp hs).2

/-- What a map request of a client is answered with. -/
def serveMap (ks : KeyStore ν) (id : DialogueId) (afterSeq toSeq : Nat) : Except String MapResult :=
  ks.map id afterSeq toSeq mapMaxRuns

/-- **Maps are exact.** Whatever the database holds, a page reports the live numbers of the range
in separate runs and says whether it was cut short, and the loops of the client end with all of
them. -/
theorem paging_exact (ks : KeyStore ν) (id : DialogueId) :
    (∀ afterSeq toSeq maxRuns, 0 < maxRuns →
      if toSeq ≠ 0 ∧ toSeq ≤ afterSeq then
        ks.map id afterSeq toSeq maxRuns = .error "Invalid map range"
      else ∃ m, ks.map id afterSeq toSeq maxRuns = .ok m ∧
        PacketStore.PageOf afterSeq toSeq (ks.live id) m) ∧
    (∃ k, ∃ r : Receive π, r = (Receive.mapRound (ks.serveMap id))^[k] Receive.start ∧
        r.point = .load ∧ Runs.Ascending r.allRuns ∧
        ∀ s, Runs.Covers r.allRuns s ↔ s ∈ ks.live id ∧ 0 < s) ∧
    (∀ (mode : Mode) (t : OutboundTransfer) (after : Nat) (present : List (Nat × Nat)),
      after < t.headerSeq + t.chunkCount →
      ∃ k present', (Task.existingRound (ks.serveMap id))^[k]
          (.existing mode t after present : Outer π) = .transfer mode t present' 0 ∧
        ∀ s, Runs.Covers present' s ↔ Runs.Covers present s ∨
          (s ∈ ks.live id ∧ after < s ∧ s ≤ t.headerSeq + t.chunkCount)) := by
  refine ⟨fun afterSeq toSeq maxRuns hmax => ?_, ?_, fun mode t after present hlt => ?_⟩
  · split
    · rename_i hbad
      unfold map
      rw [if_pos hbad]
    · rename_i hvalid
      exact map_page ks id hmax hvalid
  · have hserve : ∀ after, ∃ m, ks.serveMap id after 0 = .ok m ∧
        PacketStore.PageOf after 0 (ks.live id) m :=
      fun after => map_page ks id (by decide) (fun h => h.1 rfl)
    have hnone : ∀ s, Runs.Covers (Receive.start : Receive π).allRuns s ↔
        s ∈ ks.live id ∧ 0 < s ∧ s ≤ 0 := by
      intro s
      refine iff_of_false Runs.not_covers_nil ?_
      omega
    obtain ⟨k, h⟩ := mapRound_ends hserve (fun s hs => (mem_live.mp hs).2) u64Size 0
      (Receive.start : Receive π) (Nat.le_refl _) rfl Runs.Ascending.nil hnone
    exact ⟨k, _, rfl, h⟩
  · have hserve : ∀ after, after < t.headerSeq + t.chunkCount →
        ∃ m, ks.serveMap id after (t.headerSeq + t.chunkCount) = .ok m ∧
          PacketStore.PageOf after (t.headerSeq + t.chunkCount) (ks.live id) m := by
      intro after hlt
      exact map_page ks id (by decide) (by omega)
    exact existingRound_ends hserve (t.headerSeq + t.chunkCount) after present
      (Nat.le_add_right _ _) hlt

/-- The hash of some dialogue. -/
def someId : DialogueId where
  text := List.replicate 64 '0'
  length := length_zeros
  hex := hex_zeros

/-- Packets `1`, `2` and `4` beside a receipt and a chunk of an ephemeral file. -/
def someKeys : KeyStore Unit :=
  ((((empty.put (.packet someId 4) (by decide) ()).put (.receipt "alice".toList someId.text) trivial
    ()).put (.packet someId 1) (by decide) ()).put (.ephChunk someId "f".toList 0) trivial
    ()).put (.packet someId 2) (by decide) ()

/-- A transfer of one packet after the header, which is `1`. -/
def someTransfer : OutboundTransfer where
  transferId := "t"
  dialogue := ⟨"alice", "bob"⟩
  headerSeq := 1
  chunkCount := 1
  chunkSizes := [3]
  cachePath := "p"
  filename := "f"
  mimeType := "t"
  kind := .file
  totalSize := 3
  groupId := none
  topicName := none
  timestamp := 0
  attempts := 0

/-- A page of at most one run, and the packets of a transfer. -/
theorem paging_exact_someKeys :
    (∃ m, someKeys.map someId 0 0 1 = .ok m ∧
      PacketStore.PageOf 0 0 (someKeys.live someId) m) ∧
    ∃ k present', (Task.existingRound (someKeys.serveMap someId))^[k]
        (.existing .upload someTransfer 0 [] : Outer Unit)
          = .transfer .upload someTransfer present' 0 ∧
      ∀ s, Runs.Covers present' s ↔ Runs.Covers [] s ∨
        (s ∈ someKeys.live someId ∧ 0 < s ∧ s ≤ 2) := by
  have h := paging_exact (π := Unit) someKeys someId
  refine ⟨?_, h.2.2 .upload someTransfer 0 [] (by decide)⟩
  simpa using h.1 0 0 1 (by decide)

end KeyStore

end Paranoia
