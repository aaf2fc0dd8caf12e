import Paranoia.Client.VideoCall
import Paranoia.Proof.VideoReassembly

/-!
# Packets of video

A session numbers the packets it takes, so what it has sent are the fragments of what its camera
has pushed, under these numbers. Where it begins in the middle of a unit, it sends the rest of that
unit first, and whole units from then on; the rest is lost on the other side, which takes up no
unit without its first fragment.
-/

namespace Paranoia

namespace VideoOutboundPacket

def first (p : VideoOutboundPacket) : Bool := p.flags &&& frameStart != 0

/-- The packet under a number. -/
def fragment (sequence : Nat) (p : VideoOutboundPacket) : VideoFragment where
  payload := p.payload
  sequence := sequence
  rtpTimestamp := p.rtpTimestamp
  flags := p.flags

/-- It can be sealed as it is. -/
structure Cut (p : VideoOutboundPacket) : Prop where
  flags : p.flags &&& ~~~reservedMask = p.flags
  small : p.payload.length ≤ CallEngine.kMaxFragmentPayload

end VideoOutboundPacket

namespace CallEngine

/-! ## What is pushed -/

/-- Packets under the numbers from this one on. -/
def numbered : Nat → List VideoOutboundPacket → List VideoFragment
  | _, [] => []
  | n, p :: ps => p.fragment n :: numbered (n + 1) ps

theorem getElem?_numbered (n i : Nat) (ps : List VideoOutboundPacket) :
    (numbered n ps)[i]? = ps[i]?.map (VideoOutboundPacket.fragment (n + i)) := by
  induction ps generalizing n i with
  | nil => rfl
  | cons p ps ih =>
      cases i with
      | zero => rfl
      | succ i =>
          rw [numbered, List.getElem?_cons_succ, List.getElem?_cons_succ, ih, Nat.add_assoc,
            Nat.add_comm 1 i]

theorem numbered_packet {n : Nat} {fs : List VideoFragment}
    (h : fs.map VideoFragment.sequence = List.range' n fs.length) :
    numbered n (fs.map VideoFragment.packet) = fs := by
  induction fs generalizing n with
  | nil => rfl
  | cons f fs ih =>
      rw [List.map_cons, List.length_cons, List.range'_succ] at h
      obtain ⟨hf, hfs⟩ := List.cons.inj h
      rw [List.map_cons, numbered, ih hfs, ← hf]
      rfl

theorem cutNal_packet (nal : Bytes) (ts sequence sequence' start : Nat) :
    (cutNal nal ts sequence start).map VideoFragment.packet
      = (cutNal nal ts sequence' start).map VideoFragment.packet := by
  by_cases hlt : start < nal.length
  · rw [cutNal, if_pos hlt, cutNal, if_pos hlt, List.map_cons, List.map_cons,
      cutNal_packet nal ts (sequence + 1) (sequence' + 1)]
    rfl
  · rw [cutNal, if_neg hlt, cutNal, if_neg hlt]
termination_by nal.length - start
decreasing_by
  have hpos : 0 < kMaxFragmentPayload := by decide
  omega

theorem cut_cutNal (nal : Bytes) (ts sequence start : Nat) :
    ∀ f ∈ cutNal nal ts sequence start, f.packet.Cut := by
  by_cases hlt : start < nal.length
  · rw [cutNal, if_pos hlt]
    intro f hf
    rcases List.mem_cons.mp hf with rfl | hf
    · refine ⟨?_, ?_⟩
      · dsimp only [VideoFragment.packet]
        unfold Fragmenter.flagBits
        split <;> split <;> decide
      · dsimp only [VideoFragment.packet]
        rw [List.length_take]
        omega
    · exact cut_cutNal nal ts (sequence + 1) _ f hf
  · rw [cutNal, if_neg hlt]
    intro f hf
    cases hf
termination_by nal.length - start
decreasing_by
  have hpos : 0 < kMaxFragmentPayload := by decide
  omega

theorem pushed_cons_of_empty {sequence : Nat} {unit : Bytes × Int} (units : List (Bytes × Int))
    (h : unit.1.isEmpty = true) : pushed sequence (unit :: units) = pushed sequence units := by
  obtain ⟨nal, pts90khz⟩ := unit
  rw [pushed, cutUnits, if_pos h, pushed]

theorem pushed_cons {sequence : Nat} {unit : Bytes × Int} (units : List (Bytes × Int))
    (h : unit.1.isEmpty = false) :
    pushed sequence (unit :: units)
      = cutNal unit.1 (unit.2 % 2 ^ 32).toNat sequence 0
        ++ pushed (sequence
          + (cutNal unit.1 (unit.2 % 2 ^ 32).toNat sequence 0).length) units := by
  obtain ⟨nal, pts90khz⟩ := unit
  rw [pushed, cutUnits, if_neg (by rw [h]; exact Bool.false_ne_true)]
  rfl

theorem pushed_packet (sequence sequence' : Nat) (units : List (Bytes × Int)) :
    (pushed sequence units).map VideoFragment.packet
      = (pushed sequence' units).map VideoFragment.packet := by
  induction units generalizing sequence sequence' with
  | nil => rfl
  | cons unit units ih =>
      cases h : unit.1.isEmpty with
      | true => rw [pushed_cons_of_empty units h, pushed_cons_of_empty units h, ih]
      | false =>
          rw [pushed_cons units h, pushed_cons units h, List.map_append, List.map_append,
            cutNal_packet unit.1 _ sequence sequence']
          exact congrArg _ (ih _ _)

theorem sequence_pushed (sequence : Nat) (units : List (Bytes × Int)) :
    (pushed sequence units).map VideoFragment.sequence
      = List.range' sequence (pushed sequence units).length := by
  induction units generalizing sequence with
  | nil => rfl
  | cons unit units ih =>
      cases h : unit.1.isEmpty with
      | true =>
          rw [pushed_cons_of_empty units h]
          exact ih sequence
      | false =>
          rw [pushed_cons units h, List.map_append, (row_head sequence unit.2 h).sequences, ih,
            List.length_append, List.range'_append_1]

/-- What is sent is what is pushed, numbered. -/
theorem numbered_packets (sequence : Nat) (units : List (Bytes × Int)) :
    numbered sequence (packets units) = pushed sequence units := by
  rw [packets, pushed_packet 0 sequence]
  exact numbered_packet (sequence_pushed sequence units)

theorem packets_cons_of_empty {unit : Bytes × Int} (units : List (Bytes × Int))
    (h : unit.1.isEmpty = true) : packets (unit :: units) = packets units := by
  rw [packets, pushed_cons_of_empty units h, packets]

theorem packets_cons {unit : Bytes × Int} (units : List (Bytes × Int))
    (h : unit.1.isEmpty = false) :
    packets (unit :: units)
      = (cutNal unit.1 (unit.2 % 2 ^ 32).toNat 0 0).map VideoFragment.packet ++ packets units := by
  rw [packets, pushed_cons units h, List.map_append, pushed_packet _ 0, packets]

theorem packets_append (units units' : List (Bytes × Int)) :
    packets (units ++ units') = packets units ++ packets units' := by
  induction units with
  | nil => rfl
  | cons unit units ih =>
      rw [List.cons_append]
      cases h : unit.1.isEmpty with
      | true => rw [packets_cons_of_empty _ h, packets_cons_of_empty _ h, ih]
      | false => rw [packets_cons _ h, packets_cons _ h, ih, List.append_assoc]

theorem cut_packets (units : List (Bytes × Int)) : ∀ p ∈ packets units, p.Cut := by
  induction units with
  | nil =>
      intro p hp
      cases hp
  | cons unit units ih =>
      cases h : unit.1.isEmpty with
      | true => rwa [packets_cons_of_empty _ h]
      | false =>
          rw [packets_cons _ h]
          intro p hp
          rcases List.mem_append.mp hp with hp | hp
          · obtain ⟨f, hf, rfl⟩ := List.mem_map.mp hp
            exact cut_cutNal _ _ _ _ f hf
          · exact ih p hp

/-- Beyond its first fragment a unit has no first one. -/
theorem Row.first_of_tail {ts sequence : Nat} {first : Bool} {bytes : Bytes} {f : VideoFragment}
    {fs : List VideoFragment} (h : Row ts first sequence bytes (f :: fs)) :
    ∀ g ∈ fs, g.first = false := by
  cases h with
  | last => intro g hg; cases hg
  | more hfirst hseq hts hlast hbytes h =>
      intro g hg
      refine Bool.eq_false_iff.mpr (fun habs => ?_)
      exact Bool.false_ne_true ((h.first_iff g hg).mp habs).1

/-- What is left of the packets, wherever it begins: the rest of a unit, and whole units. -/
theorem packets_split {xs ys : List VideoOutboundPacket} {units : List (Bytes × Int)}
    (h : xs ++ ys = packets units) :
    ∃ rest units', ys = rest ++ packets units' ∧ (∀ p ∈ rest, p.first = false)
      ∧ units' <:+ units := by
  induction units generalizing xs with
  | nil =>
      obtain ⟨-, rfl⟩ := List.append_eq_nil_iff.mp h
      exact ⟨[], [], rfl, List.forall_mem_nil _, List.suffix_refl _⟩
  | cons unit units ih =>
      cases hempty : unit.1.isEmpty with
      | true =>
          rw [packets_cons_of_empty _ hempty] at h
          obtain ⟨rest, units', hys, hrest, hsuffix⟩ := ih h
          exact ⟨rest, units', hys, hrest, hsuffix.trans (List.suffix_cons _ _)⟩
      | false =>
          cases xs with
          | nil => exact ⟨[], unit :: units, h, List.forall_mem_nil _, List.suffix_refl _⟩
          | cons x xs =>
              rw [packets_cons _ hempty] at h
              have hrow := row_head 0 unit.2 hempty
              revert h hrow
              generalize cutNal unit.1 (unit.2 % 2 ^ 32).toNat 0 0 = fs
              intro h hrow
              rcases List.append_eq_append_iff.mp h with ⟨rest, hfs, hys⟩ | ⟨more, -, hmore⟩
              · -- the cut is within the unit, behind its first packet
                refine ⟨rest, units, hys, fun p hp => ?_, List.suffix_cons _ _⟩
                cases fs with
                | nil => cases hfs
                | cons f fs =>
                    obtain ⟨-, hfs⟩ := List.cons.inj hfs
                    have hp' : p ∈ fs.map VideoFragment.packet :=
                      hfs ▸ List.mem_append_right _ hp
                    obtain ⟨g, hg, rfl⟩ := List.mem_map.mp hp'
                    exact hrow.first_of_tail g hg
              · obtain ⟨rest, units', hys, hrest, hsuffix⟩ := ih hmore.symm
                exact ⟨rest, units', hys, hrest, hsuffix.trans (List.suffix_cons _ _)⟩

end CallEngine

/-! ## What is put together -/

namespace VideoReassembly

variable {seen : List VideoFragment} {outs : List (Nat × Bytes)} {r : VideoReassembly}

theorem Sound.reset (h : Sound seen outs r) : Sound seen outs empty where
  tracks := .idle rfl
  handed := h.handed
  fresh habs := absurd habs Bool.false_ne_true
  nodup := h.nodup

/-- The unit under assembly begins with a first fragment that has come in. -/
theorem Sound.begun (h : Sound seen outs r) (hactive : r.active = true) :
    ∃ a ∈ seen, a.first = true ∧ a.sequence = r.startSeq := by
  cases h.tracks with
  | idle hidle => exact absurd (hidle.symm.trans hactive) Bool.false_ne_true
  | assembling hsuffix hr =>
      obtain ⟨a, rest, rfl, hfirst, hs, -⟩ := hr.begun
      exact ⟨a, hsuffix.subset List.mem_cons_self, hfirst, hs⟩

/-- A fragment from before all units is lost, and at most the unit under assembly with it. -/
theorem Sound.skip (h : Sound seen outs r) {f : VideoFragment} (hfirst : f.first = false)
    (hlow : r.active = true → f.sequence < r.startSeq) :
    (r.push f).2 = none ∧ Sound seen outs (r.push f).1 := by
  cases hactive : r.active with
  | false =>
      rw [push_idle hfirst hactive]
      exact ⟨rfl, h⟩
  | true =>
      by_cases hts : f.rtpTimestamp = r.rtpTs
      · rw [push_same hfirst hactive hts, if_pos (hlow hactive)]
        exact ⟨rfl, h⟩
      · rw [push_other hfirst hactive hts]
        exact ⟨rfl, h.reset⟩

end VideoReassembly

end Paranoia
