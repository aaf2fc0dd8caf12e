import Paranoia.Proof.VideoAssembly
import Paranoia.Proof.VideoRows

/-!
# Fragments out of order

A first fragment starts the assembly anew, so it never waits in the map: what is glued together
from a first fragment on stays within its unit. It is handed over as soon as it reaches as far as the
last fragment that was seen last, and that is the unit's own or lies beyond it.
-/

namespace Paranoia

namespace VideoReassembly

variable {seen : List VideoFragment} {r : VideoReassembly} {f : VideoFragment}

/-! ## Within a unit -/

open CallEngine

section Unit

variable {base : Nat} {units : List (Bytes × Int)} {u : Bytes × List VideoFragment} {ts s : Nat}
  {w : List VideoFragment} {m : Nat}

theorem eq_of_map_sequence_eq {fs gs : List VideoFragment}
    (hfs : ∀ f ∈ fs, f ∈ pushed base units) (hgs : ∀ g ∈ gs, g ∈ pushed base units)
    (h : fs.map VideoFragment.sequence = gs.map VideoFragment.sequence) : fs = gs := by
  induction fs generalizing gs with
  | nil =>
      rw [List.map_nil, eq_comm, List.map_eq_nil_iff] at h
      exact h.symm
  | cons f fs ih =>
      cases gs with
      | nil => cases h
      | cons g gs =>
          rw [List.map_cons, List.map_cons, List.cons.injEq] at h
          rw [eq_of_sequence_eq (hfs f List.mem_cons_self) (hgs g List.mem_cons_self) h.1,
            ih (fun f hf => hfs f (List.mem_cons_of_mem _ hf))
              (fun g hg => hgs g (List.mem_cons_of_mem _ hg)) h.2]

/-- What is glued together stays within the unit. -/
theorem Assembling.le_of_placed (h : Assembling w m r) (hplaced : Placed (pushed base units) u ts s)
    (hw : ∀ b ∈ w, b ∈ pushed base units) (hs : r.startSeq = s) : m ≤ s + u.2.length := by
  by_contra hlt
  have hpos := hplaced.row.length_pos
  obtain ⟨c, hc, hcq⟩ := h.covers (q := s + u.2.length) (by omega) (by omega)
  -- the fragment after the unit is a first one, and only `a` is
  obtain ⟨a, rest, rfl, -, ha, hrest⟩ := h.begun
  rcases hplaced.around c (hw c hc) with hlt | hmem | ⟨-, hnext⟩
  · omega
  · have := (hplaced.row.bounds hmem).2
    omega
  · rcases List.mem_cons.mp hc with rfl | hc
    · omega
    · have := hrest c hc
      rw [hnext hcq] at this
      cases this

/-- All of the unit glued together is the unit. -/
theorem Assembling.nal_of_placed (h : Assembling w m r)
    (hplaced : Placed (pushed base units) u ts s) (hw : ∀ b ∈ w, b ∈ pushed base units)
    (hs : r.startSeq = s) (hm : m = s + u.2.length) : r.nal = u.1 := by
  obtain ⟨run, hnal, hseqs, hmem⟩ := h.glued
  -- fragments are told apart by their numbers
  have hrun : run = u.2 := by
    refine eq_of_map_sequence_eq (fun c hc => hw c (hmem c hc)) hplaced.within ?_
    rw [hseqs, hplaced.row.sequences, hs, hm, Nat.add_sub_cancel_left]
  rw [hnal, hrun, hplaced.row.payloads]

/-- A last fragment from the first of the unit on is the last one of the unit, or beyond it. -/
theorem last_of_placed (hplaced : Placed (pushed base units) u ts s) {f : VideoFragment}
    (hf : f ∈ pushed base units) (hlast : f.last = true) (hle : s ≤ f.sequence) :
    (f ∈ u.2 ∧ f.sequence + 1 = s + u.2.length) ∨ s + u.2.length ≤ f.sequence := by
  rcases hplaced.around f hf with hlt | hmem | ⟨hge, -⟩
  · omega
  · exact .inl ⟨hmem, (hplaced.row.last_iff f hmem).mp hlast⟩
  · exact .inr hge

/-- The last fragment that came in last, from the first of the unit on, is its own. -/
def OwnEndLast (u : Bytes × List VideoFragment) (s : Nat) (w : List VideoFragment) : Prop :=
  lastEnd s w = some (s + u.2.length - 1)

instance (u : Bytes × List VideoFragment) (s : Nat) (w : List VideoFragment) :
    Decidable (OwnEndLast u s w) :=
  inferInstanceAs (Decidable (_ = _))

/-- When a unit is ready. -/
theorem Assembling.ready_iff (h : Assembling w m r) (hplaced : Placed (pushed base units) u ts s)
    (hw : ∀ b ∈ w, b ∈ pushed base units) (hs : r.startSeq = s) :
    r.Ready ↔ m = s + u.2.length ∧ OwnEndLast u s w ∧ s + u.2.length < u64Size := by
  have hle := h.le_of_placed hplaced hw hs
  have hpos := hplaced.row.length_pos
  have hended := h.ended
  rw [hs] at hended
  constructor
  · rintro ⟨hend, hlt⟩
    rw [if_pos hend] at hended
    obtain ⟨f, hf, hlast, hsf, hseq⟩ := mem_of_lastEnd hended.symm
    rw [h.next] at hlt
    have hmod := Nat.mod_le m u64Size
    have hu64 : m % u64Size < u64Size := Nat.mod_lt _ (by decide)
    -- the end lies below what is glued together, so it is not beyond the unit
    rcases last_of_placed hplaced (hw f hf) hlast hsf with ⟨-, hown⟩ | hbeyond
    · refine ⟨by omega, ?_, by omega⟩
      rw [OwnEndLast, ← hended]
      congr 1
      omega
    · omega
  · rintro ⟨hm, hown, hu64⟩
    rw [OwnEndLast] at hown
    rw [hown] at hended
    split at hended
    · rename_i hend
      refine ⟨hend, ?_⟩
      rw [h.next, hm, Nat.mod_eq_of_lt hu64, Option.some.inj hended]
      omega
    · cases hended

/-- What is handed over is a unit, all of which came in, its last fragment after those of others. -/
theorem HandedOver.exists_unit {o : Nat × Bytes} (h : HandedOver seen o)
    (hseen : ∀ b ∈ seen, b ∈ pushed base units) :
    ∃ u ∈ cutUnits base units, ∃ ts, Placed (pushed base units) u ts o.1
      ∧ o.2 = startCode ++ u.1
      ∧ ∃ a rest, a :: rest <:+ seen ∧ a ∈ u.2 ∧ a.sequence = o.1
        ∧ (∀ f ∈ u.2, f ∈ a :: rest) ∧ OwnEndLast u o.1 (a :: rest)
        ∧ o.1 + u.2.length < u64Size := by
  obtain ⟨w, m, r, hsuffix, hr, hmissing, hready, rfl⟩ := h
  obtain ⟨a, rest, rfl, hfirst, hs, hrest⟩ := hr.begun
  have hw : ∀ b ∈ a :: rest, b ∈ pushed base units := fun b hb => hseen b (hsuffix.subset hb)
  obtain ⟨u, hu, ts, hplaced, hmem⟩ := CallEngine.exists_unit (hw a List.mem_cons_self) hfirst
  rw [hs] at hplaced
  obtain ⟨hm, hown, hu64⟩ := (hr.ready_iff hplaced hw rfl).mp hready
  refine ⟨u, hu, ts, hplaced, ?_, a, rest, hsuffix, hmem, hs, fun f hf => ?_, hown, hu64⟩
  · change startCode ++ r.nal = _
    rw [hr.nal_of_placed hplaced hw rfl hm]
  · have hbounds := hplaced.row.bounds hf
    obtain ⟨c, hc, hcf⟩ := hr.covers hbounds.1 (hm ▸ hbounds.2)
    exact eq_of_sequence_eq (hw c hc) (hplaced.within f hf) hcf ▸ hc

end Unit

/-! ## From the first fragment of a unit to the last one of it that comes in -/

/-- The fragments of a unit come in between others: its first one first, no other first fragment and
no other time stamp among them, and not too many of them. -/
structure Window (u : Bytes × List VideoFragment) (w : List VideoFragment) : Prop where
  starts : ∃ a rest, w = a :: rest ∧ a ∈ u.2 ∧ a.first = true ∧ ∀ b ∈ rest, b.first = false
  all : ∀ f ∈ u.2, f ∈ w
  ends : ∃ front z, w = front ++ [z] ∧ z ∈ u.2
  stamped : ∀ b ∈ w, ∀ f ∈ u.2, b.rtpTimestamp = f.rtpTimestamp
  few : w.length < kMaxPendingFrags
  small : size w ≤ kMaxNalBytes

/-- Within the limits no fragment of the same time stamp is lost on the unit. -/
theorem Assembling.push {w : List VideoFragment} {m : Nat} (h : Assembling w m r)
    (hmissing : Missing w m) (hnot : ¬ r.Ready) (hfirst : f.first = false)
    (hts : f.rtpTimestamp = r.rtpTs)
    (hnodup : ((w ++ [f]).map VideoFragment.sequence).Nodup)
    (hu64 : ∀ b ∈ w ++ [f], b.sequence < u64Size) (hfew : w.length < kMaxPendingFrags)
    (hsmall : size (w ++ [f]) ≤ kMaxNalBytes) :
    ∃ x m', r.push f = x.deliver ∧ Assembling (w ++ [f]) m' x ∧ Missing (w ++ [f]) m' := by
  rw [push_same hfirst h.active hts]
  split
  · rename_i hlt
    exact ⟨r, m, (deliver_of_not_ready hnot).symm, h.late hmissing hfirst hts hlt⟩
  · rename_i hle
    have hbytes := h.bytes
    have hcount := h.count
    rw [size_append] at hsmall
    obtain ⟨m', hx, hmissing'⟩ := h.arrive hmissing hfirst hts (Nat.not_lt.mp hle)
      (fresh_of_nodup hnodup) hu64
    exact ⟨_, m', place_of_room (by omega) (by omega), hx, hmissing'⟩

theorem Assembling.pushAll {w rest : List VideoFragment} {m : Nat} (h : Assembling w m r)
    (hmissing : Missing w m) (hnot : ¬ r.Ready) (hrest : rest ≠ [])
    (hfirst : ∀ f ∈ rest, f.first = false) (hts : ∀ f ∈ rest, f.rtpTimestamp = r.rtpTs)
    (hnodup : ((w ++ rest).map VideoFragment.sequence).Nodup)
    (hu64 : ∀ b ∈ w ++ rest, b.sequence < u64Size) (hfew : (w ++ rest).length < kMaxPendingFrags)
    (hsmall : size (w ++ rest) ≤ kMaxNalBytes)
    (hopen : ∀ front back m' x, w ++ rest = front ++ back → back ≠ [] → Assembling front m' x →
      ¬ x.Ready) :
    ∃ x m', r.pushAll rest = (x.deliver.2.toList, x.deliver.1)
      ∧ Assembling (w ++ rest) m' x ∧ Missing (w ++ rest) m' := by
  induction rest generalizing w m r with
  | nil => exact absurd rfl hrest
  | cons f rest ih =>
      have hsplit : w ++ f :: rest = w ++ [f] ++ rest := by simp
      rw [hsplit] at hnodup hu64 hfew hsmall hopen ⊢
      have hsub : (w ++ [f]).Sublist (w ++ [f] ++ rest) := List.sublist_append_left _ _
      have hsize : size (w ++ [f]) ≤ kMaxNalBytes := by
        unfold size at hsmall ⊢
        rw [List.map_append, List.sum_append] at hsmall
        omega
      obtain ⟨x, m', hpush, hx, hmissing'⟩ := h.push hmissing hnot (hfirst f List.mem_cons_self)
        (hts f List.mem_cons_self) (hnodup.sublist (hsub.map _))
        (fun b hb => hu64 b (List.mem_append_left _ hb))
        (by simp only [List.length_append] at hfew; omega) hsize
      rw [VideoReassembly.pushAll, hpush]
      cases rest with
      | nil =>
          rw [List.append_nil]
          exact ⟨x, m', by simp [VideoReassembly.pushAll], hx, hmissing'⟩
      | cons g rest =>
          have hopen' := hopen _ _ _ _ rfl (by simp) hx
          rw [deliver_of_not_ready hopen', Option.toList_none, List.nil_append]
          refine ih hx hmissing' hopen' (by simp) (fun b hb => hfirst b (List.mem_cons_of_mem _ hb))
            (fun b hb => ?_) hnodup hu64 hfew hsmall hopen
          rw [← hx.stamped f (List.mem_append_right _ (List.mem_singleton_self f)),
            hts b (List.mem_cons_of_mem _ hb), hts f List.mem_cons_self]

section Arrivals

variable {base : Nat} {units : List (Bytes × Int)} {u : Bytes × List VideoFragment} {ts s : Nat}

/-- What the whole of a window leaves to be delivered. -/
theorem Window.pushAll (r : VideoReassembly) {w : List VideoFragment} (h : Window u w)
    (hplaced : Placed (pushed base units) u ts s) (hw : ∀ b ∈ w, b ∈ pushed base units)
    (hnodup : (w.map VideoFragment.sequence).Nodup) (hu64 : ∀ b ∈ w, b.sequence < u64Size) :
    ∃ x m, r.pushAll w = (x.deliver.2.toList, x.deliver.1) ∧ Assembling w m x ∧ x.startSeq = s
      ∧ m = s + u.2.length := by
  obtain ⟨a, rest, rfl, hau, hafirst, hrest⟩ := h.starts
  have hseq : a.sequence = s := ((hplaced.row.first_iff a hau).mp hafirst).2
  have hstart : ∀ {m : Nat} {x : VideoReassembly} {front : List VideoFragment},
      Assembling (a :: front) m x → x.startSeq = s := fun hx => hx.startSeq_eq.trans hseq
  have hsize : size [a] ≤ kMaxNalBytes := by
    have := h.small
    simp only [size, List.map_cons, List.sum_cons, List.map_nil, List.sum_nil] at this ⊢
    omega
  have hopen : ∀ front back m' x, [a] ++ rest = front ++ back → back ≠ [] →
      Assembling front m' x → ¬ x.Ready := by
    intro front back m' x heq hback hx hready
    obtain ⟨init, z, hz, hzu⟩ := h.ends
    -- the last one that comes in is missing before
    have hfront : ∀ b ∈ front, b ∈ a :: rest := fun b hb => by
      rw [show a :: rest = front ++ back from heq]
      exact List.mem_append_left _ hb
    have hxs : x.startSeq = s := by
      obtain ⟨a', rest', rfl, -, hs', -⟩ := hx.begun
      rw [← hs', ← hseq, (List.cons.inj heq).1]
    obtain ⟨hm, -, -⟩ := (hx.ready_iff hplaced (fun b hb => hw b (hfront b hb)) hxs).mp hready
    have hbounds := hplaced.row.bounds hzu
    obtain ⟨c, hc, hcz⟩ := hx.covers (hxs ▸ hbounds.1) (hm ▸ hbounds.2)
    obtain ⟨last, hlast⟩ := List.eq_nil_or_concat' back |>.resolve_left hback
    obtain ⟨z', rfl⟩ := hlast
    have hzz : z' = z := by
      have : (front ++ last) ++ [z'] = init ++ [z] := by
        rw [List.append_assoc, ← heq, ← hz]
        rfl
      exact (List.append_inj' this rfl).2 |> List.singleton_inj.mp
    rw [show a :: rest = front ++ (last ++ [z']) from heq, List.map_append,
      List.nodup_append] at hnodup
    exact hnodup.2.2 _ (List.mem_map_of_mem hc) _
      (List.mem_map_of_mem (List.mem_append_right _ (List.mem_singleton_self z')))
      (hcz.trans (hzz ▸ rfl))
  obtain ⟨m₀, hx₀, hmissing₀⟩ := Assembling.start hafirst (hu64 a List.mem_cons_self)
  have hpush : r.push a
      = (((begin a.rtpTimestamp a.sequence).noteEnd a).store a).deliver := by
    rw [push_first r hafirst]
    refine place_of_room ?_ (show 0 < kMaxPendingFrags by decide)
    simpa [begin, empty, pendingBytes, OrdMap.empty, size] using hsize
  have hall : ∀ {m : Nat} {x : VideoReassembly}, Assembling (a :: rest) m x →
      Missing (a :: rest) m → m = s + u.2.length := by
    intro m x hx hmissing
    have hle := hx.le_of_placed hplaced hw (hstart hx)
    by_contra hne
    have hlt := hx.lt
    rw [hstart hx] at hlt
    obtain ⟨f, hf, hfm⟩ := hplaced.row.exists_mem (Nat.le_of_lt hlt) (by omega)
    exact hmissing f (h.all f hf) hfm
  -- a unit of one fragment is handed over with its first
  by_cases hnil : rest = []
  · subst hnil
    refine ⟨_, m₀, ?_, hx₀, hstart hx₀, hall hx₀ hmissing₀⟩
    rw [VideoReassembly.pushAll, hpush]
    simp [VideoReassembly.pushAll]
  · have hnot := hopen [a] rest m₀ _ rfl hnil hx₀
    rw [VideoReassembly.pushAll, hpush, deliver_of_not_ready hnot, Option.toList_none,
      List.nil_append]
    obtain ⟨x, m, hrun, hx, hmissing⟩ := hx₀.pushAll hmissing₀ hnot hnil hrest
      (fun f hf => by
        rw [← hx₀.stamped a (List.mem_singleton_self a),
          h.stamped f (List.mem_cons_of_mem _ hf) a hau]) hnodup hu64 h.few h.small hopen
    exact ⟨x, m, hrun, hx, hstart hx, hall hx hmissing⟩

/-- What comes after its own last fragment does not matter once that is the last one for good. -/
theorem lastEnd_of_append {w rest : List VideoFragment} {e : Nat}
    (h : lastEnd s (w ++ rest) = some e) (hw : ∃ f ∈ w, f.sequence = e)
    (hnodup : ((w ++ rest).map VideoFragment.sequence).Nodup) : lastEnd s w = some e := by
  obtain ⟨f, hf, hfe⟩ := hw
  induction rest using List.reverseRecOn with
  | nil => rwa [List.append_nil] at h
  | append_singleton rest g ih =>
      rw [← List.append_assoc] at h hnodup
      rw [lastEnd_append] at h
      split at h
      · cases h
        exact absurd hfe (fresh_of_nodup hnodup f (List.mem_append_left _ hf))
      · exact ih h (hnodup.sublist ((List.sublist_append_left _ _).map _))

/-- A unit that is handed over in a run was handed over in its window, its own last fragment being
the last one there. -/
theorem ownEndLast_of_handedOver {arrivals pre w post seen : List VideoFragment} {o : Nat × Bytes}
    (hsplit : arrivals = pre ++ w ++ post) (harrivals : ∀ f ∈ arrivals, f ∈ pushed base units)
    (hnodup : (arrivals.map VideoFragment.sequence).Nodup)
    (hplaced : Placed (pushed base units) u ts o.1) (hwindow : Window u w)
    (hseen : seen <+: arrivals) (h : HandedOver seen o) :
    OwnEndLast u o.1 w ∧ o.1 + u.2.length < u64Size := by
  obtain ⟨u', -, ts', hplaced', -, a', rest', ⟨old, hold⟩, ha', haseq, hall, hown, hu64⟩ :=
    h.exists_unit (fun b hb => harrivals b (hseen.subset hb))
  obtain ⟨later, hlater⟩ := hseen
  have hlength := hplaced.length_eq hplaced'
  obtain ⟨a, rest, rfl, hau, hafirst, -⟩ := hwindow.starts
  have hmem : a ∈ arrivals := by simp [hsplit]
  have hmem' : a' ∈ arrivals := by simp [← hlater, ← hold]
  have heq : a' = a := eq_of_sequence_eq (harrivals a' hmem') (harrivals a hmem)
    (haseq.trans ((hplaced.row.first_iff a hau).mp hafirst).2.symm)
  subst heq
  have hnodup' : arrivals.Nodup := List.Nodup.of_map _ hnodup
  -- both segments begin at the one place where the first fragment comes in
  have hboth : pre ++ a' :: (rest ++ post) = old ++ a' :: (rest' ++ later) := by
    rw [← List.cons_append, ← List.append_assoc, ← hsplit, ← hlater, ← hold]
    simp
  have hpre : a' ∉ pre ∧ a' ∉ rest ++ post := by
    rw [hsplit, List.append_assoc, List.cons_append] at hnodup'
    have := List.nodup_middle.mp hnodup'
    rw [List.nodup_cons, List.mem_append, not_or] at this
    exact this.1
  obtain ⟨-, -, htails⟩ := (List.append_cons_inj_of_notMem hpre.1 hpre.2).mp hboth
  refine ⟨?_, hlength ▸ hu64⟩
  rw [OwnEndLast, ← hlength] at hown
  -- either the unit was handed over after the window or within it
  rcases List.prefix_or_prefix_of_prefix (List.prefix_append rest post)
    (htails ▸ List.prefix_append rest' later) with ⟨more, hmore⟩ | ⟨more, hmore⟩
  · subst hmore
    have hpos := hplaced.row.length_pos
    obtain ⟨f, hf, hlast⟩ : ∃ f ∈ u.2, f.sequence = o.1 + u.2.length - 1 :=
      hplaced.row.exists_mem (by omega) (by omega)
    refine lastEnd_of_append hown ⟨f, hwindow.all f hf, hlast⟩ (hnodup.sublist ?_)
    refine List.Sublist.map _ ?_
    rw [← hlater, ← hold]
    exact (List.sublist_append_right _ _).trans (List.sublist_append_left _ _)
  · subst hmore
    obtain ⟨front, z, hz, hzu⟩ := hwindow.ends
    -- everything of the unit is in the shorter segment, the last one to come in too
    have hzin : z ∈ a' :: rest' := by
      have hbounds := hplaced.row.bounds hzu
      rcases hplaced'.around z (hplaced.within z hzu) with hlt | hmem | ⟨hge, -⟩
      · omega
      · exact hall z hmem
      · omega
    have hmore : more = [] := by
      rcases List.eq_nil_or_concat' more with hnil | ⟨init, z', rfl⟩
      · exact hnil
      · exfalso
        have hzz : z' = z := by
          have : (a' :: rest' ++ init) ++ [z'] = front ++ [z] := by
            rw [← hz]
            simp
          exact List.singleton_inj.mp (List.append_inj' this rfl).2
        have hw : (a' :: (rest' ++ (init ++ [z']))).Nodup := by
          refine hnodup'.sublist ?_
          rw [hsplit]
          exact (List.sublist_append_right _ _).trans (List.sublist_append_left _ _)
        rw [← List.cons_append, List.nodup_append] at hw
        exact hw.2.2 z hzin z' (by simp) hzz.symm
    subst hmore
    rw [List.append_nil]
    exact hown

end Arrivals

end VideoReassembly

namespace CallEngine

open VideoReassembly

/-- With a decoder and a sink every fragment reaches the reassembly. -/
theorem receiveVideo_eq {e : VideoIn} (hdecoder : e.hasDecoder = true) (hsink : e.hasSink = true)
    (inits : Bool) (fs : List VideoFragment) :
    (receiveVideo e inits fs).1 = (pushAll e.reassembly fs).1 := by
  induction fs generalizing e with
  | nil => rfl
  | cons f fs ih =>
      have hstep : enqueueIncomingVideoFragment e inits f e.sessionGeneration
          = ({ e with
              receivedVideoPacket := true
              reassembly := (e.reassembly.push f).1 }, (e.reassembly.push f).2) := by
        simp [enqueueIncomingVideoFragment, VideoIn.makeDecoder, hdecoder, hsink]
      rw [receiveVideo, hstep, pushAll]
      exact congrArg ((e.reassembly.push f).2.toList ++ ·) (ih hdecoder hsink)

/-- **What reaches the decoder.** Whatever is lost and however the rest comes in, what is handed over is
units, each of them once. A unit whose fragments come in within the limits, between no others than
such of its own time stamp that are not first ones, is handed over exactly if of the last fragments in
between its own came in last, and its number is not the greatest there is. -/
theorem handed_over_iff {base : Nat} {units : List (Bytes × Int)} {e : VideoIn} {inits : Bool}
    {arrivals : List VideoFragment} (hdecoder : e.hasDecoder = true) (hsink : e.hasSink = true)
    (hidle : e.reassembly.active = false)
    (hu64 : ∀ f ∈ pushed base units, f.sequence < u64Size)
    (harrivals : ∀ f ∈ arrivals, f ∈ pushed base units) (hnodup : arrivals.Nodup) :
    (∀ o ∈ (receiveVideo e inits arrivals).1,
      ∃ u ∈ cutUnits base units, o = (number u, startCode ++ u.1))
    ∧ ((receiveVideo e inits arrivals).1.map Prod.fst).Nodup
    ∧ ∀ u ∈ cutUnits base units, ∀ pre w post, arrivals = pre ++ w ++ post → Window u w →
      ((number u, startCode ++ u.1) ∈ (receiveVideo e inits arrivals).1
        ↔ OwnEndLast u (number u) w ∧ number u + u.2.length < u64Size) := by
  rw [receiveVideo_eq hdecoder hsink]
  have hseqs : (arrivals.map VideoFragment.sequence).Nodup :=
    hnodup.map_on fun f hf g hg heq => eq_of_sequence_eq (harrivals f hf) (harrivals g hg) heq
  have hlt : ∀ f ∈ arrivals, f.sequence < u64Size := fun f hf => hu64 f (harrivals f hf)
  have hstart : Sound [] [] e.reassembly :=
    ⟨.idle hidle, by simp, fun habs => absurd (hidle.symm.trans habs) Bool.false_ne_true, by simp⟩
  have hsound : Sound arrivals (pushAll e.reassembly arrivals).1
      (pushAll e.reassembly arrivals).2 := by
    have hrun := hstart.run ((List.nil_append arrivals).symm ▸ hseqs)
      ((List.nil_append arrivals).symm ▸ hlt)
    rwa [List.nil_append, List.nil_append] at hrun
  -- what is handed over is told by `Sound`; the window leaves its unit ready
  refine ⟨fun o ho => ?_, hsound.nodup, fun u hu pre w post hsplit hwindow => ?_⟩
  · obtain ⟨seen, hseen, hover⟩ := hsound.handed o ho
    obtain ⟨u, hu, ts, hplaced, hbytes, -⟩ :=
      hover.exists_unit (fun b hb => harrivals b (hseen.subset hb))
    exact ⟨u, hu, Prod.ext hplaced.number_eq.symm hbytes⟩
  · obtain ⟨ts, s, hplaced⟩ := exists_placed hu
    rw [hplaced.number_eq]
    constructor
    · intro ho
      obtain ⟨seen, hseen, hover⟩ := hsound.handed _ ho
      exact ownEndLast_of_handedOver hsplit harrivals hseqs hplaced hwindow hseen hover
    · rintro ⟨hown, hend⟩
      have hw : ∀ b ∈ w, b ∈ arrivals := fun b hb => by
        rw [hsplit]
        exact List.mem_append_left _ (List.mem_append_right _ hb)
      have hwseqs : (w.map VideoFragment.sequence).Nodup := by
        rw [hsplit, List.map_append, List.map_append] at hseqs
        exact hseqs.of_append_left.of_append_right
      rw [hsplit, pushAll_append, pushAll_append]
      obtain ⟨x, m, hrun, hx, hxs, hm⟩ := hwindow.pushAll (pushAll e.reassembly pre).2 hplaced
        (fun b hb => harrivals b (hw b hb)) hwseqs (fun b hb => hlt b (hw b hb))
      have hready : x.Ready :=
        (hx.ready_iff hplaced (fun b hb => harrivals b (hw b hb)) hxs).mpr ⟨hm, hown, hend⟩
      have hnal := hx.nal_of_placed hplaced (fun b hb => harrivals b (hw b hb)) hxs hm
      dsimp only
      rw [hrun, deliver_of_ready hready, hxs, hnal]
      exact List.mem_append_left _ (List.mem_append_right _ (List.mem_singleton_self _))

/-! ## A unit that is overtaken -/

/-- Two units of a frame, three fragments each. -/
def twoUnits : List (Bytes × Int) := [(List.replicate 2400 7, 0), (List.replicate 2400 8, 0)]

def fragment (byte : UInt8) (length sequence : Nat) (flags : UInt8) : VideoFragment :=
  ⟨List.replicate length byte, sequence, 0, flags⟩

def firstUnit : Bytes × List VideoFragment :=
  (List.replicate 2400 7, [fragment 7 1168 0 2, fragment 7 1168 1 0, fragment 7 64 2 1])

def secondUnit : Bytes × List VideoFragment :=
  (List.replicate 2400 8, [fragment 8 1168 3 2, fragment 8 1168 4 0, fragment 8 64 5 1])

def inCall : VideoIn := ⟨1, true, true, false, true, .empty⟩

/-- The last fragment of the second unit comes in before the second one of the first. -/
def overtaken : List VideoFragment :=
  [fragment 7 1168 0 2, fragment 7 64 2 1, fragment 8 64 5 1, fragment 7 1168 1 0]

/-- It comes in before the last one of the first unit. -/
def inTime : List VideoFragment :=
  [fragment 7 1168 0 2, fragment 8 64 5 1, fragment 7 64 2 1, fragment 7 1168 1 0]

theorem cutUnits_twoUnits : cutUnits 0 twoUnits = [firstUnit, secondUnit] := by decide +kernel

theorem firstUnit_mem : firstUnit ∈ cutUnits 0 twoUnits := by
  rw [cutUnits_twoUnits]
  exact List.mem_cons_self

theorem pushed_twoUnits : pushed 0 twoUnits = firstUnit.2 ++ secondUnit.2 := by
  rw [pushed, cutUnits_twoUnits]
  rfl

theorem firstUnit_snd :
    firstUnit.2 = [fragment 7 1168 0 2, fragment 7 1168 1 0, fragment 7 64 2 1] := rfl

theorem secondUnit_snd :
    secondUnit.2 = [fragment 8 1168 3 2, fragment 8 1168 4 0, fragment 8 64 5 1] := rfl

theorem lt_of_twoUnits : ∀ f ∈ pushed 0 twoUnits, f.sequence < u64Size := by
  rw [pushed_twoUnits]
  have hsequences : ∀ q ∈ (firstUnit.2 ++ secondUnit.2).map VideoFragment.sequence, q < u64Size := by
    decide
  exact fun f hf => hsequences _ (List.mem_map_of_mem hf)

/-- What both orders have in common. -/
theorem window_of_perm {rest : List VideoFragment}
    (h : [fragment 8 64 5 1, fragment 7 64 2 1].Perm rest) :
    Window firstUnit (fragment 7 1168 0 2 :: rest ++ [fragment 7 1168 1 0]) where
  starts := by
    refine ⟨fragment 7 1168 0 2, _, rfl, List.mem_cons_self, rfl, fun b hb => ?_⟩
    rcases List.mem_append.mp hb with hb | hb
    · have := h.mem_iff.mpr hb
      simp only [List.mem_cons, List.not_mem_nil, or_false] at this
      rcases this with rfl | rfl <;> rfl
    · rw [List.mem_singleton.mp hb]
      rfl
  all := by
    intro f hf
    have hmem : fragment 7 64 2 1 ∈ rest := h.mem_iff.mp (by simp)
    simp only [firstUnit_snd, List.mem_cons, List.not_mem_nil, or_false] at hf
    rcases hf with rfl | rfl | rfl
    · exact List.mem_cons_self
    · simp
    · exact List.mem_append_left _ (List.mem_cons_of_mem _ hmem)
  ends := ⟨_, fragment 7 1168 1 0, rfl, by simp [firstUnit_snd]⟩
  stamped := by
    have hts : ∀ f ∈ firstUnit.2, f.rtpTimestamp = 0 := by decide
    have hrest : ∀ b ∈ rest, b.rtpTimestamp = 0 := by
      intro b hb
      have := h.mem_iff.mpr hb
      simp only [List.mem_cons, List.not_mem_nil, or_false] at this
      rcases this with rfl | rfl <;> rfl
    intro b hb f hf
    rw [hts f hf]
    rcases List.mem_append.mp hb with hb | hb
    · rcases List.mem_cons.mp hb with rfl | hb
      · rfl
      · exact hrest b hb
    · rw [List.mem_singleton.mp hb]
      rfl
  few := by
    simp [← h.length_eq, kMaxPendingFrags]
  small := by
    have hlength : ∀ byte length sequence flags,
        (fragment byte length sequence flags).payload.length = length :=
      fun _ _ _ _ => List.length_replicate
    have hsum := (h.map (fun f => f.payload.length)).sum_nat
    unfold size
    rw [List.map_append, List.map_cons, List.sum_append, List.sum_cons, ← hsum]
    simp [hlength, kMaxNalBytes]

theorem arrivals_of_perm {rest : List VideoFragment}
    (h : [fragment 8 64 5 1, fragment 7 64 2 1].Perm rest) :
    (∀ f ∈ fragment 7 1168 0 2 :: rest ++ [fragment 7 1168 1 0], f ∈ pushed 0 twoUnits)
    ∧ (fragment 7 1168 0 2 :: rest ++ [fragment 7 1168 1 0]).Nodup := by
  have hperm : (fragment 7 1168 0 2 :: [fragment 8 64 5 1, fragment 7 64 2 1]
      ++ [fragment 7 1168 1 0]).Perm (fragment 7 1168 0 2 :: rest ++ [fragment 7 1168 1 0]) :=
    (h.cons _).append_right _
  refine ⟨fun f hf => ?_, hperm.nodup_iff.mp (List.Nodup.of_map VideoFragment.sequence (by decide))⟩
  have := hperm.mem_iff.mpr hf
  rw [pushed_twoUnits]
  simp only [List.cons_append, List.nil_append, List.mem_cons, List.not_mem_nil, or_false] at this
  rcases this with rfl | rfl | rfl | rfl <;> simp [firstUnit_snd, secondUnit_snd]

/-- All of the first unit comes in, and it is not handed over. -/
theorem overtaken_lost :
    ¬ ∀ (base : Nat) (units : List (Bytes × Int)) (e : VideoIn) (inits : Bool)
        (arrivals : List VideoFragment), e.hasDecoder = true → e.hasSink = true →
      e.reassembly.active = false → (∀ f ∈ pushed base units, f.sequence < u64Size) →
      (∀ f ∈ arrivals, f ∈ pushed base units) → arrivals.Nodup →
      ∀ u ∈ cutUnits base units, ∀ pre w post, arrivals = pre ++ w ++ post → Window u w →
        (number u, startCode ++ u.1) ∈ (receiveVideo e inits arrivals).1 := by
  intro h
  have hnothing : (receiveVideo inCall true overtaken).1 = [] := by decide +kernel
  have hperm : [fragment 8 64 5 1, fragment 7 64 2 1].Perm [fragment 7 64 2 1, fragment 8 64 5 1] :=
    List.Perm.swap ..
  have hmem := h 0 twoUnits inCall true overtaken rfl rfl rfl lt_of_twoUnits
    (arrivals_of_perm hperm).1 (arrivals_of_perm hperm).2 firstUnit firstUnit_mem [] overtaken []
    (by simp) (window_of_perm hperm)
  rw [hnothing] at hmem
  cases hmem

theorem handed_over_iff_inTime :
    (number firstUnit, startCode ++ firstUnit.1) ∈ (receiveVideo inCall true inTime).1 := by
  have hperm := List.Perm.refl [fragment 8 64 5 1, fragment 7 64 2 1]
  have hiff := @handed_over_iff 0 twoUnits inCall true inTime rfl rfl rfl lt_of_twoUnits
    (arrivals_of_perm hperm).1 (arrivals_of_perm hperm).2
  exact (hiff.2.2 firstUnit firstUnit_mem [] inTime [] (by simp) (window_of_perm hperm)).mpr
    ⟨by decide, by decide⟩

end CallEngine

end Paranoia
