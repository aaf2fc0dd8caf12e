import Paranoia.Client.VideoFragments

/-!
# Cut and put together

What `Fragmenter` makes of a unit is a row of pieces: all with its timestamp, the first and the last
of them marked and no other. Fed in order to a reassembler that has no unit under assembly, the row
gives the unit back with its last piece, and leaves the reassembler as it was.
-/

namespace Paranoia

/-- A row of pieces with the timestamp that make up the bytes; whether the first of them is the first
of the unit. -/
inductive Pieces (ts : Nat) : Bool → Bytes → List FragmentOut → Prop where
  | last {f : FragmentOut} {first : Bool} {bytes : Bytes} (hfirst : f.first = first)
      (hts : f.header.rtpTimestamp = ts) (hlast : f.last = true) (hbytes : f.payload = bytes) :
      Pieces ts first bytes [f]
  | more {f : FragmentOut} {first : Bool} {bytes rest : Bytes} {fs : List FragmentOut}
      (hfirst : f.first = first) (hts : f.header.rtpTimestamp = ts) (hlast : f.last = false)
      (hbytes : f.payload ++ rest = bytes) (h : Pieces ts false rest fs) :
      Pieces ts first bytes (f :: fs)

/-- There is a last piece. -/
theorem Pieces.replicate_length {α : Type} {a : α} {ts : Nat} {first : Bool} {bytes : Bytes}
    {fs : List FragmentOut} (h : Pieces ts first bytes fs) :
    a :: List.replicate (fs.length - 1) a = List.replicate fs.length a := by
  cases h <;> rfl

/-! ## What is cut -/

namespace Fragmenter

variable {start fin total : Nat}

theorem first_flagBits : (flagBits start fin total &&& frameStart != 0) = decide (start = 0) := by
  unfold flagBits
  by_cases hs : start = 0
  · by_cases hf : fin = total
    · rw [if_pos hs, if_pos hf, decide_eq_true hs]
      decide
    · rw [if_pos hs, if_neg hf, decide_eq_true hs]
      decide
  · by_cases hf : fin = total
    · rw [if_neg hs, if_pos hf, decide_eq_false hs]
      decide
    · rw [if_neg hs, if_neg hf, decide_eq_false hs]
      decide

theorem last_flagBits :
    (flagBits start fin total &&& fragmentEndBit != 0) = decide (fin = total) := by
  unfold flagBits
  by_cases hs : start = 0
  · by_cases hf : fin = total
    · rw [if_pos hs, if_pos hf, decide_eq_true hf]
      decide
    · rw [if_pos hs, if_neg hf, decide_eq_false hf]
      decide
  · by_cases hf : fin = total
    · rw [if_neg hs, if_pos hf, decide_eq_true hf]
      decide
    · rw [if_neg hs, if_neg hf, decide_eq_false hf]
      decide

/-- From any place on, a row of pieces is cut. -/
theorem pieces_fragmentFrom (f : Fragmenter) (nal : Bytes) (ts start : Nat)
    (hlt : start < nal.length) :
    Pieces ts (decide (start = 0)) (nal.drop start) (f.fragmentFrom nal ts start).1 := by
  have hpos := f.maxPayload_pos
  rw [fragmentFrom, if_pos hlt]
  dsimp only
  by_cases hfin : min (start + f.maxPayload) nal.length = nal.length
  · rw [fragmentFrom, if_neg (by omega)]
    dsimp only
    have hall : (nal.drop start).take (min (start + f.maxPayload) nal.length - start)
        = nal.drop start := List.take_of_length_le (by rw [List.length_drop]; omega)
    exact .last first_flagBits rfl (last_flagBits.trans (decide_eq_true hfin)) hall
  · have hrest := pieces_fragmentFrom { f with nextSeq := saturatingAdd f.nextSeq 1 } nal ts
      (min (start + f.maxPayload) nal.length) (by omega)
    rw [decide_eq_false (by omega : ¬ min (start + f.maxPayload) nal.length = 0)] at hrest
    have hsplit : (nal.drop start).take (min (start + f.maxPayload) nal.length - start)
        ++ nal.drop (min (start + f.maxPayload) nal.length) = nal.drop start := by
      have hdrop : nal.drop (min (start + f.maxPayload) nal.length)
          = (nal.drop start).drop (min (start + f.maxPayload) nal.length - start) := by
        rw [List.drop_drop]
        congr 1
        omega
      rw [hdrop, List.take_append_drop]
    exact .more first_flagBits rfl (last_flagBits.trans (decide_eq_false hfin)) hsplit hrest
termination_by nal.length - start
decreasing_by omega

/-- There is a piece for every `maxPayload` bytes that are begun. -/
theorem length_fragmentFrom (f : Fragmenter) (nal : Bytes) (ts start : Nat)
    (hlt : start < nal.length) :
    (f.fragmentFrom nal ts start).1.length = (nal.length - start - 1) / f.maxPayload + 1 := by
  have hpos := f.maxPayload_pos
  rw [fragmentFrom, if_pos hlt]
  dsimp only
  rw [List.length_cons]
  by_cases hfin : start + f.maxPayload < nal.length
  · have hleft : nal.length - start - 1
        = nal.length - min (start + f.maxPayload) nal.length - 1 + f.maxPayload := by omega
    rw [length_fragmentFrom _ nal ts _ (by omega), hleft, Nat.add_div_right _ hpos]
  · rw [fragmentFrom, if_neg (by omega), Nat.div_eq_of_lt (by omega)]
    rfl
termination_by nal.length - start
decreasing_by omega

theorem maxPayload_fragmentFrom (f : Fragmenter) (nal : Bytes) (ts start : Nat) :
    (f.fragmentFrom nal ts start).2.maxPayload = f.maxPayload := by
  have hpos := f.maxPayload_pos
  rw [fragmentFrom]
  split
  · exact maxPayload_fragmentFrom _ nal ts _
  · rfl
termination_by nal.length - start
decreasing_by omega

theorem length_fragment (f : Fragmenter) {nal : Bytes} (ts : Nat) (h : nal ≠ []) :
    (f.fragment nal ts).1.length = (nal.length - 1) / f.maxPayload + 1 := by
  unfold fragment
  rw [if_neg (by simpa using h)]
  exact f.length_fragmentFrom nal ts 0 (List.length_pos_iff.mpr h)

theorem maxPayload_fragment (f : Fragmenter) (nal : Bytes) (ts : Nat) :
    (f.fragment nal ts).2.maxPayload = f.maxPayload := by
  unfold fragment
  split
  · rfl
  · exact f.maxPayload_fragmentFrom nal ts 0

theorem pieces_fragment (f : Fragmenter) {nal : Bytes} (ts : Nat) (h : nal ≠ []) :
    Pieces ts true nal (f.fragment nal ts).1 := by
  unfold fragment
  rw [if_neg (by simpa using h)]
  simpa using f.pieces_fragmentFrom nal ts 0 (List.length_pos_iff.mpr h)

/-- The fragments of each unit are its pieces. -/
theorem pieces_fragmentAll (f : Fragmenter) {units : List (Bytes × Nat)}
    (h : ∀ u ∈ units, u.1 ≠ []) :
    List.Forall₂ (fun u fs => Pieces u.2 true u.1 fs) units (f.fragmentAll units).1 := by
  induction units generalizing f with
  | nil => exact .nil
  | cons u units ih =>
      exact .cons (f.pieces_fragment u.2 (h u List.mem_cons_self))
        (ih _ (fun v hv => h v (List.mem_cons_of_mem _ hv)))

end Fragmenter

/-! ## What is put together -/

namespace Reassembler

variable {r : Reassembler} {f : FragmentOut} {ts : Nat} {fs : List FragmentOut} {rest : Bytes}

theorem Idle.reset_eq (h : r.Idle) : r.reset = r := by
  obtain ⟨hts, hbuf, hexp⟩ := h
  cases r
  cases hts
  cases hbuf
  cases hexp
  rfl

theorem idle_reset (r : Reassembler) : r.reset.Idle := ⟨rfl, rfl, rfl⟩

theorem feed_cons (r : Reassembler) (f : FragmentOut) (l : List FragmentOut) :
    r.feed (f :: l) = ((r.push f).1 :: ((r.push f).2.feed l).1, ((r.push f).2.feed l).2) := rfl

theorem feed_append (r : Reassembler) (l l' : List FragmentOut) :
    r.feed (l ++ l') = ((r.feed l).1 ++ ((r.feed l).2.feed l').1, ((r.feed l).2.feed l').2) := by
  induction l generalizing r with
  | nil => rfl
  | cons f l ih =>
      rw [List.cons_append, feed_cons, feed_cons, ih]
      rfl

theorem changeTs_same (h : r.currentTs = some ts) : r.changeTs ts = (none, r) := by
  unfold changeTs
  rw [h]
  exact if_neg (fun hne => hne rfl)

theorem changeTs_none (h : r.currentTs = none) : r.changeTs ts = (none, r) := by
  unfold changeTs
  rw [h]

/-- A fragment that goes on with the unit under assembly. -/
theorem push_next (hts : r.currentTs = some f.header.rtpTimestamp) (hexp : r.expecting = true)
    (hfirst : f.first = false) : r.push f = r.append none f.last f.payload := by
  unfold push
  dsimp only
  rw [changeTs_same hts]
  dsimp only
  rw [hfirst, hexp, hts]
  rfl

/-- The first fragment of a unit, where none is under assembly. -/
theorem push_first (hr : r.Idle) (hfirst : f.first = true) :
    r.push f = ({ r with
      buffer := [], expecting := true, currentTs := some f.header.rtpTimestamp } :
        Reassembler).append none f.last f.payload := by
  unfold push
  dsimp only
  rw [changeTs_none hr.1]
  dsimp only
  rw [if_pos hfirst]

/-- The rest of the pieces complete the unit. -/
theorem feed_rest (r : Reassembler) (h : Pieces ts false rest fs) (hts : r.currentTs = some ts)
    (hexp : r.expecting = true) (hsize : r.buffer.length + rest.length ≤ r.maxNalSize) :
    r.feed fs = (List.replicate (fs.length - 1) none ++ [some (r.buffer ++ rest)], r.reset) := by
  generalize hb : false = first at h
  induction h generalizing r with
  | last hfirst hfts hlast hbytes =>
      subst hb hbytes
      rw [feed_cons, push_next (by rw [hts, hfts]) hexp hfirst, append, if_neg (by omega), hlast]
      rfl
  | @more f _ _ rest fs hfirst hfts hlast hbytes h ih =>
      subst hb hbytes
      rw [List.length_append] at hsize
      rw [feed_cons, push_next (by rw [hts, hfts]) hexp hfirst, append, if_neg (by omega), hlast,
        if_neg Bool.false_ne_true]
      have hih := ih { r with buffer := r.buffer ++ f.payload } hts hexp
        (by dsimp only; rw [List.length_append]; omega) rfl
      dsimp only at hih ⊢
      rw [hih, List.length_cons, Nat.add_sub_cancel, ← h.replicate_length, List.append_assoc]
      rfl

/-- **A unit comes back with its last piece**, and nothing is left of it. -/
theorem feed_pieces (h : Pieces ts true rest fs) (hr : r.Idle) (hsize : rest.length ≤ r.maxNalSize) :
    r.feed fs = (List.replicate (fs.length - 1) none ++ [some rest], r) := by
  cases h with
  | last hfirst hfts hlast hbytes =>
      subst hbytes
      rw [feed_cons, push_first hr hfirst, append, if_neg (by simpa using hsize), hlast]
      exact congrArg (Prod.mk _) hr.reset_eq
  | @more f _ _ rest fs hfirst hfts hlast hbytes h =>
      subst hbytes
      rw [List.length_append] at hsize
      rw [feed_cons, push_first hr hfirst, append,
        if_neg (by simpa using Nat.le_trans (Nat.le_add_right _ _) hsize), hlast,
        if_neg Bool.false_ne_true]
      have hrest := feed_rest { r with
        buffer := f.payload, expecting := true, currentTs := some f.header.rtpTimestamp } h
        (by rw [hfts]) rfl hsize
      dsimp only at hrest ⊢
      rw [List.nil_append, hrest, List.length_cons, Nat.add_sub_cancel, ← h.replicate_length]
      exact congrArg (Prod.mk _) hr.reset_eq

/-- What is to be handed out while the units come in, in fragments of `size` bytes: each unit with
the last of its fragments. -/
def handedOut (size : Nat) (units : List (Bytes × Nat)) : List (Option Bytes) :=
  units.flatMap (fun u => List.replicate ((u.1.length - 1) / size) none ++ [some u.1])

/-- **The round trip.** Every unit that is cut and fed in order to a reassembler without a unit under
assembly comes back with its last fragment, in order, and no unit is under assembly afterwards. -/
theorem feed_fragmentAll (f : Fragmenter) {units : List (Bytes × Nat)} {r : Reassembler}
    (hr : r.Idle) (h : ∀ u ∈ units, u.1 ≠ [] ∧ u.1.length ≤ r.maxNalSize) :
    r.feed (f.fragmentAll units).1.flatten = (handedOut f.maxPayload units, r) ∧ r.Idle := by
  refine ⟨?_, hr⟩
  induction units generalizing f with
  | nil => rfl
  | cons u units ih =>
      obtain ⟨hne, hsize⟩ := h u List.mem_cons_self
      have hih := ih (f.fragment u.1 u.2).2 (fun v hv => h v (List.mem_cons_of_mem _ hv))
      rw [f.maxPayload_fragment] at hih
      have hall : (f.fragmentAll (u :: units)).1
          = (f.fragment u.1 u.2).1 :: ((f.fragment u.1 u.2).2.fragmentAll units).1 := rfl
      rw [hall, List.flatten_cons, feed_append, feed_pieces (f.pieces_fragment u.2 hne) hr hsize, hih,
        f.length_fragment u.2 hne]
      rfl

/-- Three units, two of them with one timestamp, in fragments of at most two bytes. -/
theorem feed_fragmentAll_three :
    (new.withMaxNalSize 5).feed
        (((⟨.video, 2, 0, by decide⟩ : Fragmenter).fragmentAll
          [([1, 2, 3, 4], 7), ([5], 7), ([6, 7, 8], 9)]).1.flatten)
      = ([none, some [1, 2, 3, 4], some [5], none, some [6, 7, 8]], new.withMaxNalSize 5)
    ∧ (new.withMaxNalSize 5).Idle :=
  feed_fragmentAll _ (by decide) (by decide)

end Reassembler

end Paranoia
