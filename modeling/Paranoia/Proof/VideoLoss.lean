import Paranoia.Proof.VideoFragments

/-!
# Fragments that were lost

The reassembler knows a fragment by its timestamp and its two marks. What it hands out on the last
fragment of a unit is what came in with one timestamp from a first fragment on, whether or not the
fragments between them are all there: a unit with a hole in its middle is handed out with the hole.
-/

namespace Paranoia

/-- A fragment that has come in, and which one it is: the number of its unit and its own in it. -/
structure Arrival where
  unit : Nat
  index : Nat
  fragment : FragmentOut
deriving DecidableEq

namespace Arrival

def ts (a : Arrival) : Nat := a.fragment.header.rtpTimestamp

/-- The fragment is one of those that were cut. -/
def Of (cut : List (List FragmentOut)) (a : Arrival) : Prop :=
  ∃ fs, cut[a.unit]? = some fs ∧ fs[a.index]? = some a.fragment

end Arrival

/-- All the fragments of a unit, in order. -/
def arrivals (unit : Nat) (fs : List FragmentOut) : List Arrival :=
  fs.mapIdx (fun index f => ⟨unit, index, f⟩)

def joined (run : List Arrival) : Bytes := run.flatMap (fun a => a.fragment.payload)

/-- Fragments with one timestamp, of which the first alone is the first one of a unit. -/
structure Run (maxNalSize ts : Nat) (run : List Arrival) : Prop where
  starts : ∃ a rest, run = a :: rest ∧ a.fragment.first = true ∧
    ∀ b ∈ rest, b.fragment.first = false
  ts : ∀ a ∈ run, a.ts = ts
  size : (joined run).length ≤ maxNalSize

/-- None of them is the last one of a unit. -/
def Unfinished (run : List Arrival) : Prop := ∀ a ∈ run, a.fragment.last = false

/-- Between the first and the last fragment of a unit nothing is missing, doubled or out of place,
and where a unit is left unfinished the next timestamp does not come with a last fragment only. -/
structure Undamaged (maxNalSize : Nat) (cut : List (List FragmentOut)) (received : List Arrival) :
    Prop where
  whole : ∀ pre run a post ts, received = pre ++ run ++ a :: post → Unfinished run →
    a.fragment.last = true → Run maxNalSize ts (run ++ [a]) →
    ∃ unit fs, cut[unit]? = some fs ∧ run ++ [a] = arrivals unit fs
  begun : ∀ pre run a post ts, received = pre ++ run ++ a :: post → Unfinished run →
    Run maxNalSize ts run → a.ts ≠ ts → a.fragment.last = true →
    a.fragment.first = true ∧ a.fragment.payload.length ≤ maxNalSize

variable {a : Arrival} {run : List Arrival} {ts : Nat}

theorem joined_append (run : List Arrival) (a : Arrival) :
    joined (run ++ [a]) = joined run ++ a.fragment.payload := by
  simp [joined]

theorem Run.snoc {maxNalSize : Nat} (h : Run maxNalSize ts run) (hfirst : a.fragment.first = false)
    (hts : a.ts = ts) (hsize : (joined run).length + a.fragment.payload.length ≤ maxNalSize) :
    Run maxNalSize ts (run ++ [a]) where
  starts := by
    obtain ⟨b, rest, rfl, hb, hrest⟩ := h.starts
    refine ⟨b, rest ++ [a], rfl, hb, fun c hc => ?_⟩
    rcases List.mem_append.mp hc with hc | hc
    · exact hrest c hc
    · rwa [List.mem_singleton.mp hc]
  ts c hc := by
    rcases List.mem_append.mp hc with hc | hc
    · exact h.ts c hc
    · rwa [List.mem_singleton.mp hc]
  size := by rwa [joined_append, List.length_append]

theorem Run.single {maxNalSize : Nat} (hfirst : a.fragment.first = true)
    (hsize : a.fragment.payload.length ≤ maxNalSize) : Run maxNalSize a.ts [a] where
  starts := ⟨a, [], rfl, hfirst, fun _ h => absurd h List.not_mem_nil⟩
  ts b hb := by rw [List.mem_singleton.mp hb]
  size := by simpa [joined] using hsize

namespace Reassembler

variable {r : Reassembler} {seen : List Arrival}

/-- The unit under assembly is what came in since its first fragment. -/
structure Assembling (r : Reassembler) (seen run : List Arrival) : Prop where
  suffix : run <:+ seen
  expecting : r.expecting = true
  unfinished : Unfinished run
  timed : ∃ ts, r.currentTs = some ts ∧ Run r.maxNalSize ts run
  buffer : r.buffer = joined run

/-- Either no unit is under assembly, or one is. -/
def Tracks (r : Reassembler) (seen : List Arrival) : Prop :=
  r.Idle ∨ ∃ run, r.Assembling seen run

/-- What a push may hand out on the last fragment of a unit: what came in since the first one, or what
there was of a unit with another timestamp. -/
inductive HandedOut (r : Reassembler) (seen : List Arrival) (a : Arrival) (nal : Bytes) : Prop where
  | finished {run : List Arrival} {ts : Nat} (hsuffix : run <:+ seen) (hopen : Unfinished run)
      (hrun : Run r.maxNalSize ts (run ++ [a])) (hnal : nal = joined (run ++ [a]))
  | released {run : List Arrival} {ts : Nat} (hsuffix : run <:+ seen) (hopen : Unfinished run)
      (hrun : Run r.maxNalSize ts run) (hts : a.ts ≠ ts)
      (hnot : ¬ (a.fragment.first = true ∧ a.fragment.payload.length ≤ r.maxNalSize))

/-- The first fragment of a unit, whatever was under assembly. -/
theorem start_spec (r : Reassembler) (completed : Option Bytes) (seen : List Arrival)
    (hfirst : a.fragment.first = true) :
    let next := ({ r with
      buffer := [], expecting := true, currentTs := some a.ts } : Reassembler).append completed
        a.fragment.last a.fragment.payload
    next.2.maxNalSize = r.maxNalSize ∧ next.2.Tracks (seen ++ [a]) ∧
      (a.fragment.last = true → ∀ nal, next.1 = some nal →
        (a.fragment.payload.length ≤ r.maxNalSize ∧ nal = joined [a])
        ∨ (¬ a.fragment.payload.length ≤ r.maxNalSize ∧ completed = some nal)) := by
  unfold append
  dsimp only
  rw [List.nil_append, List.length_nil, Nat.zero_add]
  split
  · rename_i hsize
    exact ⟨rfl, .inl (idle_reset _), fun _ nal h => .inr ⟨Nat.not_le.mpr hsize, h⟩⟩
  · rename_i hsize
    have hsize := Nat.not_lt.mp hsize
    split
    · refine ⟨rfl, .inl (idle_reset _), fun _ nal h => .inl ⟨hsize, ?_⟩⟩
      rw [← Option.some.inj h]
      simp [joined]
    · rename_i hlast
      refine ⟨rfl, .inr ⟨[a], List.suffix_append seen [a], rfl, ?_, ⟨a.ts, rfl, ?_⟩, ?_⟩,
        fun h => absurd h hlast⟩
      · intro b hb
        rw [List.mem_singleton.mp hb]
        exact Bool.eq_false_iff.mpr hlast
      · exact Run.single hfirst hsize
      · simp [joined]

/-- **One push.** -/
theorem Tracks.push (h : r.Tracks seen) (a : Arrival) :
    (r.push a.fragment).2.maxNalSize = r.maxNalSize
    ∧ (r.push a.fragment).2.Tracks (seen ++ [a])
    ∧ (a.fragment.last = true → ∀ nal, (r.push a.fragment).1 = some nal →
        HandedOut r seen a nal) := by
  have hpush : r.push a.fragment
      = if a.fragment.first then
          ({ (r.changeTs a.ts).2 with
            buffer := [], expecting := true, currentTs := some a.ts } : Reassembler).append
              (r.changeTs a.ts).1 a.fragment.last a.fragment.payload
        else if !(r.changeTs a.ts).2.expecting then r.changeTs a.ts
        else if (r.changeTs a.ts).2.currentTs.isNone then
          ((r.changeTs a.ts).1, { (r.changeTs a.ts).2 with buffer := [], expecting := false })
        else (r.changeTs a.ts).2.append (r.changeTs a.ts).1 a.fragment.last a.fragment.payload := rfl
  -- the first fragment of a unit, where the timestamp hands out nothing
  have hstart : r.changeTs a.ts = (none, r) → a.fragment.first = true →
      (r.push a.fragment).2.maxNalSize = r.maxNalSize
      ∧ (r.push a.fragment).2.Tracks (seen ++ [a])
      ∧ (a.fragment.last = true → ∀ nal, (r.push a.fragment).1 = some nal →
          HandedOut r seen a nal) := by
    intro hts hfirst
    rw [hpush, hts, if_pos hfirst]
    obtain ⟨hmax, htracks, hout⟩ := start_spec r none seen hfirst
    refine ⟨hmax, htracks, fun hlast nal hnal => ?_⟩
    rcases hout hlast nal hnal with ⟨hsize, rfl⟩ | ⟨-, hnone⟩
    · exact .finished List.nil_suffix (fun _ h => absurd h List.not_mem_nil)
        (Run.single hfirst hsize) rfl
    · cases hnone
  rcases h with hidle | ⟨run, h⟩
  · have hts : r.changeTs a.ts = (none, r) := changeTs_none hidle.1
    by_cases hfirst : a.fragment.first = true
    · exact hstart hts hfirst
    · rw [hpush, hts, if_neg hfirst, hidle.2.2]
      exact ⟨rfl, .inl hidle, fun _ nal hnal => by cases hnal⟩
  · obtain ⟨ts, hcur, hrun⟩ := h.timed
    by_cases hsame : a.ts = ts
    · have hts : r.changeTs a.ts = (none, r) := changeTs_same (hsame ▸ hcur)
      by_cases hfirst : a.fragment.first = true
      · exact hstart hts hfirst
      · -- the unit goes on
        have hfirst := Bool.eq_false_iff.mpr hfirst
        rw [push_next (hcur.trans (congrArg some hsame.symm)) h.expecting hfirst]
        unfold append
        split
        · exact ⟨rfl, .inl (idle_reset _), fun _ nal hnal => by cases hnal⟩
        · rename_i hsize
          have hsize := Nat.not_lt.mp hsize
          rw [h.buffer] at hsize ⊢
          have hsnoc := hrun.snoc hfirst hsame hsize
          split
          · refine ⟨rfl, .inl (idle_reset _), fun _ nal hnal => ?_⟩
            refine .finished h.suffix h.unfinished hsnoc ?_
            rw [← Option.some.inj hnal, joined_append]
          · rename_i hlast
            refine ⟨rfl, .inr ⟨run ++ [a], ?_, h.expecting, ?_, ⟨ts, hcur, hsnoc⟩, ?_⟩,
              fun hyes => absurd hyes hlast⟩
            · obtain ⟨pre, rfl⟩ := h.suffix
              exact ⟨pre, by rw [List.append_assoc]⟩
            · intro b hb
              rcases List.mem_append.mp hb with hb | hb
              · exact h.unfinished b hb
              · rw [List.mem_singleton.mp hb]
                exact Bool.eq_false_iff.mpr hlast
            · rw [joined_append]
    · -- the unit is left unfinished
      have hts : ∃ completed, r.changeTs a.ts = (completed, r.reset) := by
        unfold changeTs
        rw [hcur]
        exact ⟨_, if_pos hsame⟩
      obtain ⟨completed, hts⟩ := hts
      by_cases hfirst : a.fragment.first = true
      · rw [hpush, hts, if_pos hfirst]
        obtain ⟨hmax, htracks, hout⟩ := start_spec r.reset completed seen hfirst
        refine ⟨hmax, htracks, fun hlast nal hnal => ?_⟩
        rcases hout hlast nal hnal with ⟨hsize, rfl⟩ | ⟨hsize, -⟩
        · exact .finished List.nil_suffix (fun _ h => absurd h List.not_mem_nil)
            (Run.single hfirst hsize) rfl
        · exact .released h.suffix h.unfinished hrun hsame (fun hboth => hsize hboth.2)
      · rw [hpush, hts, if_neg hfirst]
        refine ⟨rfl, .inl (idle_reset r), fun _ nal _ => ?_⟩
        exact .released h.suffix h.unfinished hrun hsame (fun hboth => hfirst hboth.1)

/-- **All pushes.** -/
theorem Idle.tracks (h : r.Idle) (received : List Arrival) :
    (r.feed (received.map (·.fragment))).2.maxNalSize = r.maxNalSize
    ∧ (r.feed (received.map (·.fragment))).2.Tracks received := by
  induction received using List.reverseRecOn with
  | nil => exact ⟨rfl, .inl h⟩
  | append_singleton received a ih =>
      rw [List.map_append, feed_append]
      obtain ⟨hmax, htracks, -⟩ := ih.2.push a
      exact ⟨hmax.trans ih.1, htracks⟩

end Reassembler

/-! ## Whole units -/

theorem Pieces.flatMap_payload {ts : Nat} {first : Bool} {bytes : Bytes} {fs : List FragmentOut}
    (h : Pieces ts first bytes fs) : fs.flatMap (·.payload) = bytes := by
  induction h with
  | last _ _ _ hbytes => simpa using hbytes
  | more _ _ _ hbytes _ ih => rw [List.flatMap_cons, ih, hbytes]

theorem joined_arrivals (unit : Nat) (fs : List FragmentOut) :
    joined (arrivals unit fs) = fs.flatMap (·.payload) := by
  have hmap : (arrivals unit fs).map (·.fragment) = fs := by
    refine List.ext_getElem (by simp [arrivals]) (fun i h h' => ?_)
    simp [arrivals]
  have hjoined : joined (arrivals unit fs)
      = ((arrivals unit fs).map (·.fragment)).flatMap (·.payload) := by
    rw [List.flatMap_map]
    rfl
  rw [hjoined, hmap]

namespace Reassembler

variable {r : Reassembler}

/-- **Nothing corrupted is handed out on the last fragment of a unit**, if what came in is undamaged
there: what is handed out is the unit of that fragment, and all its fragments have come in. -/
theorem intact (f : Fragmenter) {units : List (Bytes × Nat)} (hunits : ∀ u ∈ units, u.1 ≠ [])
    (hr : r.Idle) {received : List Arrival}
    (h : Undamaged r.maxNalSize (f.fragmentAll units).1 received) :
    ∀ pre a post nal, received = pre ++ a :: post → a.fragment.last = true →
      ((r.feed (pre.map (·.fragment))).2.push a.fragment).1 = some nal →
      ∃ ts fs, units[a.unit]? = some (nal, ts) ∧ (f.fragmentAll units).1[a.unit]? = some fs
        ∧ arrivals a.unit fs ⊆ pre ++ [a] := by
  intro pre a post nal hreceived hlast hnal
  obtain ⟨hmax, htracks⟩ := hr.tracks pre
  cases (htracks.push a).2.2 hlast nal hnal with
  | @finished run ts hsuffix hopen hrun hjoined =>
      obtain ⟨before, rfl⟩ := hsuffix
      rw [hmax] at hrun
      -- what was under assembly is a whole unit, so it is that of the last fragment
      obtain ⟨unit, fs, hfs, hwhole⟩ := h.whole before run a post ts hreceived hopen hlast hrun
      have hunit : a.unit = unit := by
        have hmem : a ∈ arrivals unit fs := hwhole ▸ List.mem_append_right _ List.mem_cons_self
        obtain ⟨i, hi, rfl⟩ := List.mem_mapIdx.mp hmem
        rfl
      subst hunit
      have hpieces := f.pieces_fragmentAll hunits
      obtain ⟨hlen, hall⟩ := List.forall₂_iff_get.mp hpieces
      obtain ⟨hlt, hget⟩ := List.getElem?_eq_some_iff.mp hfs
      have hp := hall a.unit (hlen ▸ hlt) hlt
      refine ⟨(units[a.unit]).2, fs, ?_, hfs, ?_⟩
      · rw [List.getElem?_eq_getElem (hlen ▸ hlt), hjoined, hwhole, joined_arrivals, ← hget]
        rw [List.get_eq_getElem, List.get_eq_getElem] at hp
        rw [hp.flatMap_payload]
      · rw [← hwhole, List.append_assoc]
        exact List.subset_append_right _ _
  | @released run ts hsuffix hopen hrun hts hnot =>
      obtain ⟨before, rfl⟩ := hsuffix
      rw [hmax] at hrun hnot
      -- a unit with another timestamp begins with its first fragment, which hands out itself
      exact absurd (h.begun before run a post ts hreceived hopen hrun hts hlast) hnot

/-! ## A hole in the middle -/

/-- A unit of three bytes, a byte a fragment. -/
def threeBytes : List Arrival :=
  arrivals 0 [⟨⟨.video, frameStart, 0, 7⟩, [1]⟩, ⟨⟨.video, 0, 1, 7⟩, [2]⟩,
    ⟨⟨.video, fragmentEndBit, 2, 7⟩, [3]⟩]

theorem cut_threeBytes :
    ((⟨.video, 1, 0, by decide⟩ : Fragmenter).fragmentAll [([1, 2, 3], 7)]).1
      = [threeBytes.map (·.fragment)] := by
  simp [Fragmenter.fragmentAll, Fragmenter.fragment, Fragmenter.fragmentFrom, Fragmenter.flagBits,
    threeBytes, arrivals, saturatingAdd, u64Size]

/-- The second of three fragments is lost, and the first and the third are handed out as a unit. -/
theorem hole_handed_out :
    ¬ ∀ (f : Fragmenter) (units : List (Bytes × Nat)) (r : Reassembler) (received : List Arrival),
      (∀ u ∈ units, u.1 ≠ []) → r.Idle → (∀ a ∈ received, a.Of (f.fragmentAll units).1) →
      ∀ pre a post nal, received = pre ++ a :: post → a.fragment.last = true →
        ((r.feed (pre.map (·.fragment))).2.push a.fragment).1 = some nal →
        ∃ u ∈ units, nal = u.1 := by
  intro h
  have hall : ∀ a ∈ [threeBytes[0], threeBytes[2]], a.Of
      ((⟨.video, 1, 0, by decide⟩ : Fragmenter).fragmentAll [([1, 2, 3], 7)]).1 := by
    intro a ha
    rw [cut_threeBytes]
    rcases List.mem_cons.mp ha with rfl | ha
    · exact ⟨_, rfl, rfl⟩
    · rw [List.mem_singleton.mp ha]
      exact ⟨_, rfl, rfl⟩
  obtain ⟨u, hu, heq⟩ := h _ [([1, 2, 3], 7)] new _ (by decide) (by decide) hall
    [threeBytes[0]] threeBytes[2] [] [1, 3] rfl (by decide) (by decide)
  rw [List.mem_singleton.mp hu] at heq
  cases heq

/-- Where the fragments of the unit may begin and end. -/
theorem split_threeBytes {pre run post : List Arrival} {a : Arrival}
    (h : threeBytes = pre ++ run ++ a :: post) (hlast : a.fragment.last = true)
    (hstarts : ∃ b rest, run ++ [a] = b :: rest ∧ b.fragment.first = true) :
    pre = [] ∧ run ++ [a] = threeBytes := by
  have ha : threeBytes[(pre ++ run).length]? = some a := by
    rw [h, List.getElem?_append_right (Nat.le_refl _), Nat.sub_self]
    rfl
  have hend : (pre ++ run).length = 2 := by
    have hlt := (List.getElem?_eq_some_iff.mp ha).1
    have hcases : ∀ i < threeBytes.length, ∀ b, threeBytes[i]? = some b → b.fragment.last = true →
        i = 2 := by
      intro i hi b hb
      match i, hi with
      | 0, _ => cases hb; exact fun hb => absurd hb (by decide)
      | 1, _ => cases hb; exact fun hb => absurd hb (by decide)
      | 2, _ => exact fun _ => rfl
    exact hcases _ hlt a ha hlast
  obtain ⟨b, rest, hrun, hb⟩ := hstarts
  have hbegin : threeBytes[pre.length]? = some b := by
    rw [h, List.append_assoc, List.getElem?_append_right (Nat.le_refl _), Nat.sub_self,
      List.append_cons, hrun]
    rfl
  have hpre : pre.length = 0 := by
    rw [List.length_append] at hend
    match hn : pre.length, (show pre.length ≤ 2 by omega) with
    | 0, _ => rfl
    | 1, _ => rw [hn] at hbegin; cases hbegin; exact absurd hb (by decide)
    | 2, _ => rw [hn] at hbegin; cases hbegin; exact absurd hb (by decide)
  have hnil := List.length_eq_zero_iff.mp hpre
  subst hnil
  have hpost : post.length = 0 := by
    have hlen := congrArg List.length h
    rw [List.length_append, hend, List.length_cons] at hlen
    have : threeBytes.length = 3 := rfl
    omega
  rw [List.length_eq_zero_iff.mp hpost] at h
  exact ⟨rfl, h.symm⟩

/-- All three fragments, and no other. -/
theorem intact_threeBytes :
    ∃ ts fs, [(([1, 2, 3] : Bytes), 7)][0]? = some ([1, 2, 3], ts)
      ∧ ((⟨.video, 1, 0, by decide⟩ : Fragmenter).fragmentAll [([1, 2, 3], 7)]).1[0]? = some fs
      ∧ arrivals 0 fs ⊆ [threeBytes[0], threeBytes[1]] ++ [threeBytes[2]] := by
  refine intact (⟨.video, 1, 0, by decide⟩ : Fragmenter) (by decide) (by decide : new.Idle)
    (?_ : Undamaged _ _ threeBytes) [threeBytes[0], threeBytes[1]] threeBytes[2] [] [1, 2, 3]
    (rfl : threeBytes = _) (by decide) (by decide)
  constructor
  · intro pre run a post ts h _ hlast hrun
    obtain ⟨b, rest, heq, hb, -⟩ := hrun.starts
    obtain ⟨-, hwhole⟩ := split_threeBytes h hlast ⟨b, rest, heq, hb⟩
    exact ⟨0, _, by rw [cut_threeBytes]; rfl, hwhole⟩
  · intro pre run a post ts h _ hrun hts hlast
    obtain ⟨b, rest, rfl, hb, -⟩ := hrun.starts
    obtain ⟨-, hwhole⟩ := split_threeBytes h hlast ⟨b, rest ++ [a], rfl, hb⟩
    have hseven : ∀ c ∈ threeBytes, c.ts = 7 := by decide
    have hb' := hrun.ts b List.mem_cons_self
    rw [hseven b (hwhole ▸ List.mem_cons_self)] at hb'
    exact absurd (hseven a (hwhole ▸ List.mem_append_right _ List.mem_cons_self)) (hb' ▸ hts)

end Reassembler

end Paranoia
