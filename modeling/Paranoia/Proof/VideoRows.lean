import Paranoia.Client.VideoReassembly
import Paranoia.Proof.VideoFragments

/-!
# The numbers of the fragments of video

The numbers of the fragments of a unit follow on each other, and the number after the last of them is
that of the first fragment of the next unit.
-/

namespace Paranoia

namespace CallEngine

/-! ## The numbers of a unit -/

/-- Fragments with the time stamp, numbered from `sequence` on, that make up the bytes; whether the
first of them is the first of the unit. -/
inductive Row (ts : Nat) : Bool → Nat → Bytes → List VideoFragment → Prop where
  | last {f : VideoFragment} {first : Bool} {sequence : Nat} {bytes : Bytes}
      (hfirst : f.first = first) (hseq : f.sequence = sequence) (hts : f.rtpTimestamp = ts)
      (hlast : f.last = true) (hbytes : f.payload = bytes) : Row ts first sequence bytes [f]
  | more {f : VideoFragment} {first : Bool} {sequence : Nat} {bytes rest : Bytes}
      {fs : List VideoFragment} (hfirst : f.first = first) (hseq : f.sequence = sequence)
      (hts : f.rtpTimestamp = ts) (hlast : f.last = false) (hbytes : f.payload ++ rest = bytes)
      (h : Row ts false (sequence + 1) rest fs) : Row ts first sequence bytes (f :: fs)

theorem row_cutNal (nal : Bytes) (ts sequence start : Nat) (hlt : start < nal.length) :
    Row ts (decide (start = 0)) sequence (nal.drop start) (cutNal nal ts sequence start) := by
  have hpos : 0 < kMaxFragmentPayload := by decide
  rw [cutNal, if_pos hlt]
  dsimp only
  by_cases hfin : min (start + kMaxFragmentPayload) nal.length = nal.length
  · rw [cutNal, if_neg (by omega)]
    have hall : (nal.drop start).take (min (start + kMaxFragmentPayload) nal.length - start)
        = nal.drop start := List.take_of_length_le (by rw [List.length_drop]; omega)
    exact .last Fragmenter.first_flagBits rfl rfl
      (Fragmenter.last_flagBits.trans (decide_eq_true hfin)) hall
  · have hrest := row_cutNal nal ts (sequence + 1)
      (min (start + kMaxFragmentPayload) nal.length) (by omega)
    rw [decide_eq_false (by omega : ¬ min (start + kMaxFragmentPayload) nal.length = 0)] at hrest
    have hsplit : (nal.drop start).take (min (start + kMaxFragmentPayload) nal.length - start)
        ++ nal.drop (min (start + kMaxFragmentPayload) nal.length) = nal.drop start := by
      have hdrop : nal.drop (min (start + kMaxFragmentPayload) nal.length)
          = (nal.drop start).drop (min (start + kMaxFragmentPayload) nal.length - start) := by
        rw [List.drop_drop]
        congr 1
        omega
      rw [hdrop, List.take_append_drop]
    exact .more Fragmenter.first_flagBits rfl rfl
      (Fragmenter.last_flagBits.trans (decide_eq_false hfin)) hsplit hrest
termination_by nal.length - start
decreasing_by
  have hpos : 0 < kMaxFragmentPayload := by decide
  omega

namespace Row

variable {ts sequence : Nat} {first : Bool} {bytes : Bytes} {fs : List VideoFragment}

theorem length_pos (h : Row ts first sequence bytes fs) : 0 < fs.length := by
  cases h <;> simp

theorem sequences (h : Row ts first sequence bytes fs) :
    fs.map VideoFragment.sequence = List.range' sequence fs.length := by
  induction h with
  | last hfirst hseq hts hlast hbytes => rw [List.map_singleton, hseq]; rfl
  | more hfirst hseq hts hlast hbytes h ih =>
      rw [List.map_cons, hseq, ih, List.length_cons, List.range'_succ]

theorem payloads (h : Row ts first sequence bytes fs) :
    fs.flatMap VideoFragment.payload = bytes := by
  induction h with
  | last hfirst hseq hts hlast hbytes => rw [List.flatMap_singleton, hbytes]
  | more hfirst hseq hts hlast hbytes h ih => rw [List.flatMap_cons, ih, hbytes]

theorem bounds (h : Row ts first sequence bytes fs) {f : VideoFragment} (hf : f ∈ fs) :
    sequence ≤ f.sequence ∧ f.sequence < sequence + fs.length := by
  have hmem := List.mem_map_of_mem (f := VideoFragment.sequence) hf
  rw [h.sequences, List.mem_range'_1] at hmem
  exact hmem

theorem exists_head (h : Row ts first sequence bytes fs) :
    ∃ f ∈ fs, f.sequence = sequence ∧ f.first = first := by
  cases h with
  | last hfirst hseq => exact ⟨_, List.mem_cons_self, hseq, hfirst⟩
  | more hfirst hseq => exact ⟨_, List.mem_cons_self, hseq, hfirst⟩

theorem head?_sequence (h : Row ts first sequence bytes fs) :
    fs.head?.map VideoFragment.sequence = some sequence := by
  cases h with
  | last hfirst hseq => rw [List.head?_cons, Option.map_some, hseq]
  | more hfirst hseq => rw [List.head?_cons, Option.map_some, hseq]

/-- Every number of the row is that of a fragment. -/
theorem exists_mem (h : Row ts first sequence bytes fs) {q : Nat} (hle : sequence ≤ q)
    (hlt : q < sequence + fs.length) : ∃ f ∈ fs, f.sequence = q := by
  have hin : q ∈ fs.map VideoFragment.sequence := by
    rw [h.sequences, List.mem_range'_1]
    exact ⟨hle, hlt⟩
  exact List.mem_map.mp hin

theorem stamped (h : Row ts first sequence bytes fs) : ∀ f ∈ fs, f.rtpTimestamp = ts := by
  induction h with
  | last hfirst hseq hts hlast hbytes =>
      intro f hf
      rwa [List.mem_singleton.mp hf]
  | more hfirst hseq hts hlast hbytes h ih =>
      intro f hf
      rcases List.mem_cons.mp hf with rfl | hf
      · exact hts
      · exact ih f hf

/-- Where a row begins with the first fragment, it has no other. -/
theorem first_iff (h : Row ts first sequence bytes fs) :
    ∀ f ∈ fs, f.first = true ↔ first = true ∧ f.sequence = sequence := by
  induction h with
  | last hfirst hseq hts hlast hbytes =>
      intro f hf
      rw [List.mem_singleton.mp hf, hfirst, hseq]
      simp
  | more hfirst hseq hts hlast hbytes h ih =>
      intro f hf
      rcases List.mem_cons.mp hf with rfl | hf
      · rw [hfirst, hseq]
        simp
      · have := (h.bounds hf).1
        rw [ih f hf]
        constructor
        · exact fun habs => absurd habs.1 Bool.false_ne_true
        · rintro ⟨-, heq⟩
          omega

theorem last_iff (h : Row ts first sequence bytes fs) :
    ∀ f ∈ fs, f.last = true ↔ f.sequence + 1 = sequence + fs.length := by
  induction h with
  | last hfirst hseq hts hlast hbytes =>
      intro f hf
      rw [List.mem_singleton.mp hf, hlast, hseq]
      simp
  | @more f first sequence bytes rest fs hfirst hseq hts hlast hbytes h ih =>
      intro g hg
      have hpos := h.length_pos
      rcases List.mem_cons.mp hg with rfl | hg
      · rw [hlast, hseq, List.length_cons]
        constructor
        · exact fun habs => absurd habs Bool.false_ne_true
        · intro heq
          omega
      · rw [ih g hg, List.length_cons]
        omega

end Row

/-! ## Among all that is pushed -/

/-- Where the fragments of a unit lie among all that are pushed. -/
structure Placed (all : List VideoFragment) (u : Bytes × List VideoFragment) (ts s : Nat) :
    Prop where
  row : Row ts true s u.1 u.2
  within : ∀ f ∈ u.2, f ∈ all
  around : ∀ f ∈ all, f.sequence < s ∨ f ∈ u.2
    ∨ (s + u.2.length ≤ f.sequence ∧ (f.sequence = s + u.2.length → f.first = true))

/-- The number of the first fragment of a unit. -/
def number (u : Bytes × List VideoFragment) : Nat :=
  (u.2.head?.map VideoFragment.sequence).getD 0

namespace Placed

variable {all : List VideoFragment} {u u' : Bytes × List VideoFragment} {ts ts' s : Nat}

theorem number_eq (h : Placed all u ts s) : number u = s := by
  rw [number, h.row.head?_sequence, Option.getD_some]

theorem length_le (h : Placed all u ts s) (h' : Placed all u' ts' s) :
    u.2.length ≤ u'.2.length := by
  by_contra hlt
  have hpos := h'.row.length_pos
  -- the fragment of the one after the last of the other would be a first one
  obtain ⟨f, hf, hfs⟩ := h.row.exists_mem (Nat.le_add_right s u'.2.length) (by omega)
  rcases h'.around f (h.within f hf) with hlt | hmem | ⟨-, hnext⟩
  · omega
  · have := (h'.row.bounds hmem).2
    omega
  · have := (h.row.first_iff f hf).mp (hnext hfs)
    omega

/-- One number, one unit. -/
theorem length_eq (h : Placed all u ts s) (h' : Placed all u' ts' s) :
    u.2.length = u'.2.length :=
  Nat.le_antisymm (h.length_le h') (h'.length_le h)

end Placed

theorem row_head (sequence : Nat) (pts90khz : Int) {nal : Bytes} (h : nal.isEmpty = false) :
    Row (pts90khz % 2 ^ 32).toNat true sequence nal
      (cutNal nal (pts90khz % 2 ^ 32).toNat sequence 0) := by
  have hpos : 0 < nal.length := List.length_pos_iff.mpr (by simpa using h)
  have hrow := row_cutNal nal (pts90khz % 2 ^ 32).toNat sequence 0 hpos
  rwa [decide_eq_true rfl, List.drop_zero] at hrow

/-- Numbers start at `sequence`, and the first one is a first fragment's. -/
theorem pushed_bounds {sequence : Nat} {units : List (Bytes × Int)} {f : VideoFragment}
    (hf : f ∈ pushed sequence units) :
    sequence ≤ f.sequence ∧ (f.sequence = sequence → f.first = true) := by
  induction units generalizing sequence with
  | nil => cases hf
  | cons unit units ih =>
      obtain ⟨nal, pts90khz⟩ := unit
      rw [pushed, cutUnits] at hf
      split at hf
      · exact ih hf
      · rename_i hne
        have hrow := row_head sequence pts90khz (Bool.not_eq_true _ ▸ hne)
        rw [List.flatMap_cons] at hf
        rcases List.mem_append.mp hf with hf | hf
        · exact ⟨(hrow.bounds hf).1, fun heq => (hrow.first_iff f hf).mpr ⟨rfl, heq⟩⟩
        · have := (ih hf).1
          have hpos := hrow.length_pos
          refine ⟨by omega, fun heq => ?_⟩
          omega

theorem exists_placed {sequence : Nat} {units : List (Bytes × Int)}
    {u : Bytes × List VideoFragment} (hu : u ∈ cutUnits sequence units) :
    ∃ ts s, Placed (pushed sequence units) u ts s := by
  induction units generalizing sequence with
  | nil => cases hu
  | cons unit units ih =>
      obtain ⟨nal, pts90khz⟩ := unit
      rw [pushed, cutUnits] at *
      split at hu
      · rename_i hempty
        rw [if_pos hempty]
        exact ih hu
      · rename_i hne
        rw [if_neg hne]
        have hrow := row_head sequence pts90khz (Bool.not_eq_true _ ▸ hne)
        dsimp only at hu ⊢
        rw [List.flatMap_cons]
        rcases List.mem_cons.mp hu with rfl | hu
        · refine ⟨_, sequence, hrow, fun f hf => List.mem_append_left _ hf, fun f hf => ?_⟩
          rcases List.mem_append.mp hf with hf | hf
          · exact .inr (.inl hf)
          · exact .inr (.inr (pushed_bounds hf))
        · obtain ⟨ts, s, hplaced⟩ := ih hu
          refine ⟨ts, s, hplaced.row, fun f hf => List.mem_append_right _ (hplaced.within f hf),
            fun f hf => ?_⟩
          rcases List.mem_append.mp hf with hf | hf
          · obtain ⟨g, hg, hgs, -⟩ := hplaced.row.exists_head
            have := (pushed_bounds (hplaced.within g hg)).1
            have := (hrow.bounds hf).2
            refine .inl ?_
            omega
          · exact hplaced.around f hf

/-- A first fragment is that of a unit. -/
theorem exists_unit {sequence : Nat} {units : List (Bytes × Int)} {f : VideoFragment}
    (hf : f ∈ pushed sequence units) (hfirst : f.first = true) :
    ∃ u ∈ cutUnits sequence units, ∃ ts, Placed (pushed sequence units) u ts f.sequence
      ∧ f ∈ u.2 := by
  obtain ⟨u, hu, hmem⟩ := List.mem_flatMap.mp hf
  obtain ⟨ts, s, hplaced⟩ := exists_placed hu
  obtain ⟨-, hs⟩ := (hplaced.row.first_iff f hmem).mp hfirst
  exact ⟨u, hu, ts, hs ▸ hplaced, hmem⟩

/-- No two fragments have one number. -/
theorem eq_of_sequence_eq {sequence : Nat} {units : List (Bytes × Int)} {f g : VideoFragment}
    (hf : f ∈ pushed sequence units) (hg : g ∈ pushed sequence units)
    (heq : f.sequence = g.sequence) : f = g := by
  obtain ⟨u, hu, hmem⟩ := List.mem_flatMap.mp hf
  obtain ⟨ts, s, hplaced⟩ := exists_placed hu
  have hbounds := hplaced.row.bounds hmem
  have hgu : g ∈ u.2 := by
    rcases hplaced.around g hg with hlt | hgu | ⟨hle, -⟩
    · omega
    · exact hgu
    · omega
  have hnodup : (u.2.map VideoFragment.sequence).Nodup := by
    rw [hplaced.row.sequences]
    exact List.nodup_range'
  exact List.inj_on_of_nodup_map hnodup hmem hgu heq

end CallEngine

end Paranoia
