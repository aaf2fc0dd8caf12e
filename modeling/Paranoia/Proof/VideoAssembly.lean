import Paranoia.Client.VideoReassembly

/-!
# The unit under assembly

What the reassembly holds is told by what came in since the first fragment it took: glued together is
what follows on that fragment without a gap, and everything beyond waits in the map. One spec says
what a single fragment can do, and a run keeps that nothing is handed over twice.
-/

namespace Paranoia

namespace VideoReassembly

/-- The last fragment, with a number from `s` on, that came in last. -/
def lastEnd (s : Nat) (w : List VideoFragment) : Option Nat :=
  ((w.filter (fun f => f.last && decide (s ≤ f.sequence))).getLast?).map VideoFragment.sequence

theorem lastEnd_append (s : Nat) (w : List VideoFragment) (f : VideoFragment) :
    lastEnd s (w ++ [f])
      = if f.last && decide (s ≤ f.sequence) then some f.sequence else lastEnd s w := by
  unfold lastEnd
  rw [List.filter_append, List.filter_singleton]
  cases f.last && decide (s ≤ f.sequence) with
  | true =>
      rw [cond_true, List.getLast?_concat]
      rfl
  | false =>
      rw [cond_false, List.append_nil]
      rfl

theorem mem_of_lastEnd {s e : Nat} {w : List VideoFragment} (h : lastEnd s w = some e) :
    ∃ f ∈ w, f.last = true ∧ s ≤ f.sequence ∧ f.sequence = e := by
  obtain ⟨f, hf, rfl⟩ := Option.map_eq_some_iff.mp h
  obtain ⟨hmem, hp⟩ := List.mem_filter.mp (List.mem_of_getLast? hf)
  rw [Bool.and_eq_true, decide_eq_true_eq] at hp
  exact ⟨f, hmem, hp.1, hp.2, rfl⟩

def size (w : List VideoFragment) : Nat := (w.map (fun f => f.payload.length)).sum

theorem size_append (w : List VideoFragment) (f : VideoFragment) :
    size (w ++ [f]) = size w + f.payload.length := by
  simp [size]

theorem forall_mem_concat {w : List VideoFragment} {f : VideoFragment}
    {P : VideoFragment → Prop} (hw : ∀ b ∈ w, P b) (hf : P f) : ∀ b ∈ w ++ [f], P b :=
  List.forall_mem_append.mpr ⟨hw, List.forall_mem_singleton.mpr hf⟩

/-- Where no number occurs twice, the last one is new. -/
theorem fresh_of_nodup {w : List VideoFragment} {f : VideoFragment}
    (h : ((w ++ [f]).map VideoFragment.sequence).Nodup) : ∀ c ∈ w, c.sequence ≠ f.sequence := by
  intro c hc
  rw [List.map_append, List.nodup_append] at h
  exact h.2.2 _ (List.mem_map_of_mem hc) _ (List.mem_map_of_mem (List.mem_singleton_self f))

/-! ## What waits -/

theorem pendingBytes_put (pending : OrdMap Nat Bytes) (q : Nat) (p : Bytes) :
    pendingBytes (pending.put q p) ≤ pendingBytes pending + p.length := by
  unfold pendingBytes OrdMap.put
  dsimp only
  induction pending.entries with
  | nil => simp [OrdMap.putList]
  | cons e es ih =>
      rw [OrdMap.putList]
      split
      · simp only [List.map_cons, List.sum_cons]
        omega
      · split
        · simp only [List.map_cons, List.sum_cons]
          omega
        · simp only [List.map_cons, List.sum_cons]
          omega

theorem sum_filter_le (p : Nat × Bytes → Bool) (es : List (Nat × Bytes)) :
    ((es.filter p).map (fun e => e.2.length)).sum ≤ (es.map (fun e => e.2.length)).sum := by
  induction es with
  | nil => exact Nat.le_refl _
  | cons e es ih =>
      rw [List.filter_cons]
      split
      · simp only [List.map_cons, List.sum_cons]
        omega
      · simp only [List.map_cons, List.sum_cons]
        omega

theorem pendingBytes_erase {pending : OrdMap Nat Bytes} {q : Nat} {p : Bytes}
    (h : pending.get? q = some p) :
    pendingBytes (pending.eraseWhere (fun k => k = q)) + p.length ≤ pendingBytes pending := by
  have hmem := OrdMap.get?_eq_some.mp h
  unfold pendingBytes OrdMap.eraseWhere
  dsimp only
  generalize pending.entries = es at hmem
  induction es with
  | nil => cases hmem
  | cons e es ih =>
      rcases List.mem_cons.mp hmem with rfl | hmem
      · rw [List.filter_cons_of_neg (by simp)]
        have := sum_filter_le (fun e => !decide (e.1 = q)) es
        simp only [List.map_cons, List.sum_cons]
        omega
      · have := ih hmem
        by_cases he : e.1 = q
        · rw [List.filter_cons_of_neg (by simp [he])]
          simp only [List.map_cons, List.sum_cons]
          omega
        · rw [List.filter_cons_of_pos (by simp [he])]
          simp only [List.map_cons, List.sum_cons]
          omega

/-! ## Noting the end -/

section NoteEnd

variable (r : VideoReassembly) (f : VideoFragment)

@[simp] theorem noteEnd_active : (r.noteEnd f).active = r.active := by unfold noteEnd; split <;> rfl

@[simp] theorem noteEnd_rtpTs : (r.noteEnd f).rtpTs = r.rtpTs := by unfold noteEnd; split <;> rfl

@[simp] theorem noteEnd_startSeq : (r.noteEnd f).startSeq = r.startSeq := by
  unfold noteEnd; split <;> rfl

@[simp] theorem noteEnd_nextExpected : (r.noteEnd f).nextExpected = r.nextExpected := by
  unfold noteEnd; split <;> rfl

@[simp] theorem noteEnd_nal : (r.noteEnd f).nal = r.nal := by unfold noteEnd; split <;> rfl

@[simp] theorem noteEnd_pending : (r.noteEnd f).pending = r.pending := by
  unfold noteEnd; split <;> rfl

theorem noteEnd_ended :
    (if (r.noteEnd f).hasEnd then some (r.noteEnd f).endSeq else none)
      = if f.last then some f.sequence else if r.hasEnd then some r.endSeq else none := by
  unfold noteEnd
  cases f.last <;> rfl

end NoteEnd

/-! ## The unit under assembly -/

/-- The reassembly after the fragments `w`, of which the first one alone is the first of a unit: glued
together is what lies below `m`, and all from there on waits. -/
structure Assembling (w : List VideoFragment) (m : Nat) (r : VideoReassembly) : Prop where
  active : r.active = true
  begun : ∃ a rest, w = a :: rest ∧ a.first = true ∧ a.sequence = r.startSeq
    ∧ ∀ b ∈ rest, b.first = false
  stamped : ∀ b ∈ w, b.rtpTimestamp = r.rtpTs
  next : r.nextExpected = m % u64Size
  lt : r.startSeq < m
  glued : ∃ run : List VideoFragment, r.nal = run.flatMap VideoFragment.payload
    ∧ run.map VideoFragment.sequence = List.range' r.startSeq (m - r.startSeq) ∧ ∀ c ∈ run, c ∈ w
  waiting : ∀ q p, r.pending.get? q = some p
    ↔ m ≤ q ∧ ∃ b ∈ w, b.sequence = q ∧ b.payload = p
  ended : (if r.hasEnd then some r.endSeq else none) = lastEnd r.startSeq w
  bytes : r.nal.length + pendingBytes r.pending ≤ size w
  count : r.pending.entries.length < w.length

/-- The fragment that comes next has not come in. -/
def Missing (w : List VideoFragment) (m : Nat) : Prop := ∀ b ∈ w, b.sequence ≠ m

/-- The unit is complete as far as its last fragment is known. -/
def Ready (r : VideoReassembly) : Prop := r.hasEnd = true ∧ r.endSeq < r.nextExpected

theorem deliver_of_ready {r : VideoReassembly} (h : r.Ready) :
    r.deliver = (empty, some (r.startSeq, startCode ++ r.nal)) := by
  unfold deliver
  rw [if_pos]
  rw [h.1, Bool.true_and, Bool.not_eq_true', decide_eq_false_iff_not]
  exact Nat.not_le.mpr h.2

theorem deliver_of_not_ready {r : VideoReassembly} (h : ¬ r.Ready) : r.deliver = (r, none) := by
  unfold deliver
  rw [if_neg]
  rw [Bool.and_eq_true, Bool.not_eq_true', decide_eq_false_iff_not]
  exact fun hr => h ⟨hr.1, Nat.not_le.mp hr.2⟩

namespace Assembling

variable {w : List VideoFragment} {m : Nat} {r : VideoReassembly} {f : VideoFragment}

/-- All numbers below `m` have come in. -/
theorem covers (h : Assembling w m r) {q : Nat} (hs : r.startSeq ≤ q) (hq : q < m) :
    ∃ c ∈ w, c.sequence = q := by
  obtain ⟨run, -, hseqs, hmem⟩ := h.glued
  have hin : q ∈ run.map VideoFragment.sequence := by
    rw [hseqs, List.mem_range'_1]
    omega
  obtain ⟨c, hc, hcq⟩ := List.mem_map.mp hin
  exact ⟨c, hmem c hc, hcq⟩

/-- Gluing on the fragment that is next. -/
theorem glue (h : Assembling w m r) (hf : f ∈ w) (hm : f.sequence = m) (hu64 : m < u64Size)
    (pending : OrdMap Nat Bytes)
    (hpending : ∀ q p, pending.get? q = some p
      ↔ m + 1 ≤ q ∧ ∃ b ∈ w, b.sequence = q ∧ b.payload = p)
    (hbytes : r.nal.length + f.payload.length + pendingBytes pending ≤ size w)
    (hcount : pending.entries.length < w.length) :
    Assembling w (m + 1) ({ r with pending := pending }.glue f.payload) := by
  obtain ⟨run, hnal, hseqs, hmem⟩ := h.glued
  have hlt := h.lt
  refine ⟨h.active, h.begun, h.stamped, ?_, Nat.lt_succ_of_lt hlt, ⟨run ++ [f], ?_, ?_, ?_⟩,
    hpending, h.ended, ?_, hcount⟩
  · change (r.nextExpected + 1) % u64Size = _
    rw [h.next, Nat.mod_eq_of_lt hu64]
  · change r.nal ++ f.payload = _
    rw [hnal, List.flatMap_append, List.flatMap_singleton]
  · change _ = List.range' r.startSeq (m + 1 - r.startSeq)
    rw [List.map_append, hseqs, List.map_singleton, hm,
      show m + 1 - r.startSeq = m - r.startSeq + 1 by omega, List.range'_concat]
    congr 2
    omega
  · intro c hc
    rcases List.mem_append.mp hc with hc | hc
    · exact hmem c hc
    · exact List.mem_singleton.mp hc ▸ hf
  · change (r.nal ++ f.payload).length + pendingBytes pending ≤ _
    rwa [List.length_append]

/-- Everything that waits and is next is glued on. -/
theorem absorb (h : Assembling w m r) (hu64 : ∀ b ∈ w, b.sequence < u64Size) :
    ∃ m', Assembling w m' r.absorb ∧ Missing w m' := by
  induction r using VideoReassembly.absorb.induct generalizing m with
  | case1 r hnone =>
      rw [VideoReassembly.absorb]
      split
      -- what is next would wait under its number, had it come in
      · refine ⟨m, h, fun b hb hm => ?_⟩
        have hlt := hu64 b hb
        rw [h.next, ← hm, Nat.mod_eq_of_lt hlt] at hnone
        have := (h.waiting b.sequence b.payload).mpr ⟨hm.ge, b, hb, rfl, rfl⟩
        rw [hnone] at this
        cases this
      · rename_i payload hsome
        rw [hnone] at hsome
        cases hsome
  | case2 r payload hsome ih =>
      rw [VideoReassembly.absorb]
      split
      · rename_i hnone
        rw [hsome] at hnone
        cases hnone
      · rename_i payload' hsome'
        cases hsome.symm.trans hsome'
        obtain ⟨hle, b, hb, hbm, rfl⟩ := (h.waiting _ _).mp hsome
        -- a number that waits is a `u64`, so the next one has not wrapped around
        have hltb := hu64 b hb
        have hm : b.sequence = m := by
          rw [h.next] at hle hbm
          have := Nat.mod_le m u64Size
          omega
        have hkey : r.nextExpected = m := hbm.symm.trans hm
        have herase := pendingBytes_erase hsome
        refine ih (h.glue hb hm (hm ▸ hltb) _ (fun q p => ?_) ?_ ?_)
        · rw [OrdMap.get?_eq_some, OrdMap.mem_eraseWhere, ← OrdMap.get?_eq_some, h.waiting q p,
            hkey, decide_eq_false_iff_not]
          constructor
          · rintro ⟨⟨hq, hex⟩, hne⟩
            exact ⟨by omega, hex⟩
          · rintro ⟨hq, hex⟩
            exact ⟨⟨by omega, hex⟩, by omega⟩
        · have := h.bytes
          omega
        · exact Nat.lt_of_le_of_lt (List.length_filter_le _ _) h.count

/-- The first fragment of a unit. -/
theorem start (hfirst : f.first = true) (hu64 : f.sequence < u64Size) :
    ∃ m, Assembling [f] m (((begin f.rtpTimestamp f.sequence).noteEnd f).store f)
      ∧ Missing [f] m := by
  have hone : Assembling [f] (f.sequence + 1)
      (((begin f.rtpTimestamp f.sequence).noteEnd f).glue f.payload) := by
    refine ⟨by simp [VideoReassembly.glue, begin], ⟨f, [], rfl, hfirst, ?_, by simp⟩, ?_, ?_, ?_,
      ⟨[f], ?_, ?_, fun c hc => hc⟩, fun q p => ?_, ?_, ?_, ?_⟩
    · simp [VideoReassembly.glue, begin]
    · simp [VideoReassembly.glue, begin]
    · simp [VideoReassembly.glue, begin]
    · simp [VideoReassembly.glue, begin]
    · simp [VideoReassembly.glue, begin, empty]
    · simp [VideoReassembly.glue, begin]
    · simp only [VideoReassembly.glue, noteEnd_pending, List.mem_singleton, exists_eq_left]
      rw [show (begin f.rtpTimestamp f.sequence).pending = .empty from rfl, OrdMap.get?_empty]
      constructor
      · exact fun habs => absurd habs (by simp)
      · rintro ⟨hq, hf, -⟩
        omega
    · refine (noteEnd_ended _ _).trans ?_
      simp only [VideoReassembly.glue, noteEnd_startSeq]
      rw [show [f] = [] ++ [f] from rfl, lastEnd_append]
      simp [begin, empty, lastEnd]
    · simp [VideoReassembly.glue, begin, empty, size, pendingBytes, OrdMap.empty]
    · simp [VideoReassembly.glue, begin, empty, OrdMap.empty]
  unfold store
  rw [if_pos (by simp [begin])]
  exact hone.absorb (fun b hb => by rwa [List.mem_singleton.mp hb])

/-- A fragment of an earlier unit is dropped. -/
theorem late (h : Assembling w m r) (hmissing : Missing w m) (hfirst : f.first = false)
    (hts : f.rtpTimestamp = r.rtpTs) (hlt : f.sequence < r.startSeq) :
    Assembling (w ++ [f]) m r ∧ Missing (w ++ [f]) m := by
  have hm := h.lt
  obtain ⟨a, rest, rfl, ha, hs, hrest⟩ := h.begun
  obtain ⟨run, hnal, hseqs, hmem⟩ := h.glued
  refine ⟨⟨h.active, ⟨a, rest ++ [f], rfl, ha, hs, forall_mem_concat hrest hfirst⟩,
    forall_mem_concat h.stamped hts, h.next, hm,
    ⟨run, hnal, hseqs, fun c hc => List.mem_append_left _ (hmem c hc)⟩, fun q p => ?_, ?_, ?_, ?_⟩,
    forall_mem_concat hmissing (by omega)⟩
  · rw [h.waiting q p]
    refine and_congr_right fun hq => ⟨fun ⟨b, hb, heq⟩ => ⟨b, List.mem_append_left _ hb, heq⟩, ?_⟩
    rintro ⟨b, hb, hbq, hbp⟩
    rcases List.mem_append.mp hb with hb | hb
    · exact ⟨b, hb, hbq, hbp⟩
    · rw [List.mem_singleton.mp hb] at hbq
      omega
  · rw [h.ended, lastEnd_append, if_neg]
    simp only [Bool.and_eq_true, decide_eq_true_eq, not_and]
    omega
  · have := h.bytes
    rw [size_append]
    omega
  · have := h.count
    rw [List.length_append]
    omega

/-- A fragment of this unit, or of a later one with its time stamp. -/
theorem arrive (h : Assembling w m r) (hmissing : Missing w m) (hfirst : f.first = false)
    (hts : f.rtpTimestamp = r.rtpTs) (hle : r.startSeq ≤ f.sequence)
    (hfresh : ∀ c ∈ w, c.sequence ≠ f.sequence) (hu64 : ∀ b ∈ w ++ [f], b.sequence < u64Size) :
    ∃ m', Assembling (w ++ [f]) m' ((r.noteEnd f).store f) ∧ Missing (w ++ [f]) m' := by
  -- below `m` everything has come in, and nothing comes in twice
  have hmle : m ≤ f.sequence := by
    by_contra hlt
    obtain ⟨c, hc, hcq⟩ := h.covers hle (Nat.not_le.mp hlt)
    exact hfresh c hc hcq
  have hmem : f ∈ w ++ [f] := List.mem_append_right _ (List.mem_singleton_self f)
  have hltf := hu64 f hmem
  have hnext : (r.noteEnd f).nextExpected = m := by
    rw [noteEnd_nextExpected, h.next, Nat.mod_eq_of_lt (by omega)]
  have hbytes := h.bytes
  have hcount := h.count
  have hput := pendingBytes_put r.pending f.sequence f.payload
  have hlen := r.pending.length_put_le f.sequence f.payload
  -- whether or not its turn has come, it may be thought to wait first
  have hwaits : Assembling (w ++ [f]) m
      { r.noteEnd f with pending := r.pending.put f.sequence f.payload } := by
    obtain ⟨a, rest, rfl, ha, hs, hrest⟩ := h.begun
    obtain ⟨run, hnal, hseqs, hrun⟩ := h.glued
    refine ⟨by simpa using h.active,
      ⟨a, rest ++ [f], rfl, ha, by simpa using hs, forall_mem_concat hrest hfirst⟩, ?_, ?_, ?_,
      ⟨run, by simpa using hnal, by simpa using hseqs,
        fun c hc => List.mem_append_left _ (hrun c hc)⟩, fun q p => ?_, ?_, ?_, ?_⟩
    · rw [show ({ r.noteEnd f with
        pending := r.pending.put f.sequence f.payload } : VideoReassembly).rtpTs = r.rtpTs
          from noteEnd_rtpTs r f]
      exact forall_mem_concat h.stamped hts
    · simpa using h.next
    · simpa using h.lt
    · dsimp only
      rw [OrdMap.get?_eq_some, OrdMap.mem_put, ← OrdMap.get?_eq_some, h.waiting q p]
      constructor
      · rintro (heq | ⟨⟨hq, b, hb, hbq⟩, -⟩)
        · cases heq
          exact ⟨hmle, f, hmem, rfl, rfl⟩
        · exact ⟨hq, b, List.mem_append_left _ hb, hbq⟩
      · rintro ⟨hq, b, hb, rfl, rfl⟩
        rcases List.mem_append.mp hb with hb | hb
        · exact .inr ⟨⟨hq, b, hb, rfl, rfl⟩, hfresh b hb⟩
        · rw [List.mem_singleton.mp hb]
          exact .inl rfl
    · refine (noteEnd_ended r f).trans ?_
      rw [h.ended]
      simp only [noteEnd_startSeq]
      rw [lastEnd_append, decide_eq_true hle, Bool.and_true]
    · rw [size_append]
      simp only [noteEnd_nal]
      omega
    · rw [List.length_append, List.length_singleton]
      dsimp only
      omega
  unfold store
  by_cases hturn : f.sequence = m
  · rw [if_pos (hturn.trans hnext.symm)]
    refine (hwaits.glue hmem hturn (by omega) (r.noteEnd f).pending (fun q p => ?_) ?_ ?_).absorb
      hu64
    · rw [noteEnd_pending, h.waiting q p]
      constructor
      · rintro ⟨hq, b, hb, rfl, rfl⟩
        have := hmissing b hb
        exact ⟨by omega, b, List.mem_append_left _ hb, rfl, rfl⟩
      · rintro ⟨hq, b, hb, rfl, rfl⟩
        rcases List.mem_append.mp hb with hb | hb
        · exact ⟨by omega, b, hb, rfl, rfl⟩
        · rw [List.mem_singleton.mp hb] at hq
          omega
    · rw [size_append]
      simp only [noteEnd_nal, noteEnd_pending]
      omega
    · rw [noteEnd_pending, List.length_append]
      omega
  · rw [if_neg (fun heq => hturn (heq.trans hnext)), noteEnd_pending]
    exact ⟨m, hwaits, forall_mem_concat hmissing hturn⟩

end Assembling

/-! ## One fragment -/

theorem push_first (r : VideoReassembly) {f : VideoFragment} (hfirst : f.first = true) :
    r.push f = (begin f.rtpTimestamp f.sequence).place f := by
  unfold push
  dsimp only
  rw [if_pos hfirst]

theorem push_idle {r : VideoReassembly} {f : VideoFragment} (hfirst : f.first = false)
    (hidle : r.active = false) : r.push f = (r, none) := by
  unfold push changeTs
  simp [hfirst, hidle]

theorem push_other {r : VideoReassembly} {f : VideoFragment} (hfirst : f.first = false)
    (hactive : r.active = true) (hts : f.rtpTimestamp ≠ r.rtpTs) : r.push f = (empty, none) := by
  unfold push changeTs
  simp [hfirst, hactive, hts, empty]

theorem push_same {r : VideoReassembly} {f : VideoFragment} (hfirst : f.first = false)
    (hactive : r.active = true) (hts : f.rtpTimestamp = r.rtpTs) :
    r.push f = if f.sequence < r.startSeq then (r, none) else r.place f := by
  unfold push changeTs
  simp [hfirst, hactive, hts]

/-- A fragment that is over the limits ends the unit. -/
theorem place_cases (r : VideoReassembly) (f : VideoFragment) :
    r.place f = (empty, none) ∨ r.place f = ((r.noteEnd f).store f).deliver := by
  unfold place
  dsimp only
  split
  · exact .inl rfl
  · exact .inr rfl

theorem place_of_room {r : VideoReassembly} {f : VideoFragment}
    (hbytes : r.nal.length + pendingBytes r.pending + f.payload.length ≤ CallEngine.kMaxNalBytes)
    (hcount : r.pending.entries.length < CallEngine.kMaxPendingFrags) :
    r.place f = ((r.noteEnd f).store f).deliver := by
  unfold place
  dsimp only
  rw [if_neg]
  rw [noteEnd_nal, noteEnd_pending]
  omega

/-- What may be handed over after `seen`: the unit under assembly, once it is ready. -/
def HandedOver (seen : List VideoFragment) (o : Nat × Bytes) : Prop :=
  ∃ w m r, w <:+ seen ∧ Assembling w m r ∧ Missing w m ∧ r.Ready
    ∧ o = (r.startSeq, startCode ++ r.nal)

/-- No unit is under assembly, or what came in since its first fragment is. -/
inductive Tracks (seen : List VideoFragment) (r : VideoReassembly) : Prop where
  | idle (hidle : r.active = false)
  | assembling {w : List VideoFragment} {m : Nat} (hsuffix : w <:+ seen)
      (h : Assembling w m r) (hmissing : Missing w m) (hnot : ¬ r.Ready)

/-- What a push leaves and hands over has this first number: that of the unit that was under
assembly, or that of the fragment. -/
def Origin (r : VideoReassembly) (f : VideoFragment) (s : Nat) : Prop :=
  (r.active = true ∧ s = r.startSeq) ∨ s = f.sequence

structure Pushed (seen : List VideoFragment) (r : VideoReassembly) (f : VideoFragment)
    (result : VideoReassembly × Option (Nat × Bytes)) : Prop where
  tracks : Tracks seen result.1
  origin : result.1.active = true → Origin r f result.1.startSeq
  handed : ∀ o, result.2 = some o → result.1.active = false ∧ HandedOver seen o ∧ Origin r f o.1

theorem Assembling.startSeq_eq {a : VideoFragment} {rest : List VideoFragment} {m : Nat}
    {r : VideoReassembly} (h : Assembling (a :: rest) m r) : r.startSeq = a.sequence := by
  obtain ⟨a', rest', heq, -, hs, -⟩ := h.begun
  cases heq
  exact hs.symm

variable {seen : List VideoFragment} {r : VideoReassembly} {f : VideoFragment}

theorem pushed_empty : Pushed seen r f (empty, none) :=
  ⟨.idle rfl, fun habs => absurd habs Bool.false_ne_true, fun _ habs => absurd habs (by simp)⟩

theorem pushed_deliver {w : List VideoFragment} {m : Nat} {x : VideoReassembly}
    (hsuffix : w <:+ seen) (h : Assembling w m x) (hmissing : Missing w m)
    (horigin : Origin r f x.startSeq) : Pushed seen r f x.deliver := by
  by_cases hready : x.Ready
  · rw [deliver_of_ready hready]
    refine ⟨.idle rfl, fun habs => absurd habs Bool.false_ne_true, fun o ho => ?_⟩
    cases ho
    exact ⟨rfl, ⟨w, m, x, hsuffix, h, hmissing, hready, rfl⟩, horigin⟩
  · rw [deliver_of_not_ready hready]
    exact ⟨.assembling hsuffix h hmissing hready, fun _ => horigin,
      fun _ habs => absurd habs (by simp)⟩

/-- **One fragment.** -/
theorem push_spec (h : Tracks seen r) (hnodup : ((seen ++ [f]).map VideoFragment.sequence).Nodup)
    (hu64 : ∀ b ∈ seen ++ [f], b.sequence < u64Size) : Pushed (seen ++ [f]) r f (r.push f) := by
  cases hfirst : f.first with
  | true =>
      -- whatever was under assembly, a first fragment starts anew
      rw [push_first r hfirst]
      rcases place_cases (begin f.rtpTimestamp f.sequence) f with heq | heq
      · rw [heq]
        exact pushed_empty
      · rw [heq]
        obtain ⟨m, hx, hmissing⟩ := Assembling.start hfirst
          (hu64 f (List.mem_append_right _ (List.mem_singleton_self f)))
        exact pushed_deliver (List.suffix_append _ _) hx hmissing (.inr hx.startSeq_eq)
  | false =>
      cases h with
      | idle hidle =>
          rw [push_idle hfirst hidle]
          exact ⟨.idle hidle, fun habs => absurd (hidle.symm.trans habs) Bool.false_ne_true,
            fun _ habs => absurd habs (by simp)⟩
      | @assembling w m hsuffix h hmissing hnot =>
          -- another time stamp gives the unit up
          by_cases hts : f.rtpTimestamp = r.rtpTs
          · obtain ⟨old, rfl⟩ := hsuffix
            have hsuffix' : w ++ [f] <:+ old ++ w ++ [f] := by
              rw [List.append_assoc]
              exact List.suffix_append _ _
            rw [push_same hfirst h.active hts]
            split
            · rename_i hlt
              obtain ⟨hlate, hmissing'⟩ := h.late hmissing hfirst hts hlt
              exact ⟨.assembling hsuffix' hlate hmissing' hnot, fun _ => .inl ⟨h.active, rfl⟩,
                fun _ habs => absurd habs (by simp)⟩
            · rename_i hle
              rcases place_cases r f with heq | heq
              · rw [heq]
                exact pushed_empty
              · rw [heq]
                have hfresh : ∀ c ∈ w, c.sequence ≠ f.sequence := fun c hc =>
                  fresh_of_nodup hnodup c (List.mem_append_right _ hc)
                obtain ⟨m', hx, hmissing'⟩ := h.arrive hmissing hfirst hts (Nat.not_lt.mp hle)
                  hfresh (fun b hb => hu64 b (hsuffix'.subset hb))
                refine pushed_deliver hsuffix' hx hmissing' (.inl ⟨h.active, ?_⟩)
                obtain ⟨a, rest, rfl, -, hs, -⟩ := h.begun
                rw [← hs]
                exact hx.startSeq_eq
          · rw [push_other hfirst h.active hts]
            exact pushed_empty

/-! ## A run -/

/-- Push one fragment after the other: what is handed over, and the state afterwards. -/
def pushAll (r : VideoReassembly) : List VideoFragment → List (Nat × Bytes) × VideoReassembly
  | [] => ([], r)
  | f :: fs => ((r.push f).2.toList ++ (pushAll (r.push f).1 fs).1, (pushAll (r.push f).1 fs).2)

theorem pushAll_append (r : VideoReassembly) (fs gs : List VideoFragment) :
    pushAll r (fs ++ gs) = ((pushAll r fs).1 ++ (pushAll (pushAll r fs).2 gs).1,
      (pushAll (pushAll r fs).2 gs).2) := by
  induction fs generalizing r with
  | nil => rfl
  | cons f fs ih =>
      rw [List.cons_append, pushAll, ih, pushAll]
      dsimp only
      rw [List.append_assoc]

/-- What holds along a run. -/
structure Sound (seen : List VideoFragment) (outs : List (Nat × Bytes)) (r : VideoReassembly) :
    Prop where
  tracks : Tracks seen r
  handed : ∀ o ∈ outs, ∃ seen', seen' <+: seen ∧ HandedOver seen' o
  fresh : r.active = true → r.startSeq ∉ outs.map Prod.fst
  nodup : (outs.map Prod.fst).Nodup

/-- A unit is handed over under the number of a fragment that has come in. -/
theorem HandedOver.exists_mem {o : Nat × Bytes} (h : HandedOver seen o) :
    ∃ a ∈ seen, a.sequence = o.1 := by
  obtain ⟨w, m, r, hsuffix, hr, -, -, rfl⟩ := h
  obtain ⟨a, rest, rfl, -, hs, -⟩ := hr.begun
  exact ⟨a, hsuffix.subset List.mem_cons_self, hs⟩

theorem Sound.push {outs : List (Nat × Bytes)} (h : Sound seen outs r)
    (hnodup : ((seen ++ [f]).map VideoFragment.sequence).Nodup)
    (hu64 : ∀ b ∈ seen ++ [f], b.sequence < u64Size) :
    Sound (seen ++ [f]) (outs ++ (r.push f).2.toList) (r.push f).1 := by
  have hpushed := push_spec h.tracks hnodup hu64
  -- what was handed over has the number of a fragment that has come in, and `f` is new
  have hnew : ∀ s, Origin r f s → s ∉ outs.map Prod.fst := by
    rintro s (⟨hactive, rfl⟩ | rfl) hmem
    · exact h.fresh hactive hmem
    · obtain ⟨o, ho, heq⟩ := List.mem_map.mp hmem
      obtain ⟨seen', hbegins, hover⟩ := h.handed o ho
      obtain ⟨a, ha, has⟩ := hover.exists_mem
      exact fresh_of_nodup hnodup a (hbegins.subset ha) (has.trans heq)
  have hold : ∀ o ∈ outs, ∃ seen', seen' <+: seen ++ [f] ∧ HandedOver seen' o := by
    intro o ho
    obtain ⟨seen', hbegins, hover⟩ := h.handed o ho
    exact ⟨seen', hbegins.trans (List.prefix_append _ _), hover⟩
  cases hout : (r.push f).2 with
  | none =>
      rw [Option.toList_none, List.append_nil]
      exact ⟨hpushed.tracks, hold, fun hactive => hnew _ (hpushed.origin hactive), h.nodup⟩
  | some o =>
      obtain ⟨hidle, hover, horigin⟩ := hpushed.handed o hout
      rw [Option.toList_some]
      refine ⟨hpushed.tracks, fun o' ho' => ?_,
        fun hactive => absurd (hidle.symm.trans hactive) Bool.false_ne_true, ?_⟩
      · rcases List.mem_append.mp ho' with ho' | ho'
        · exact hold o' ho'
        · rw [List.mem_singleton.mp ho']
          exact ⟨_, List.prefix_refl _, hover⟩
      · rw [List.map_append, List.nodup_append]
        refine ⟨h.nodup, by simp, fun s hs s' hs' heq => ?_⟩
        rw [List.map_singleton, List.mem_singleton] at hs'
        exact hnew s (heq ▸ hs' ▸ horigin) hs

theorem Sound.run {outs : List (Nat × Bytes)} {fs : List VideoFragment} (h : Sound seen outs r)
    (hnodup : ((seen ++ fs).map VideoFragment.sequence).Nodup)
    (hu64 : ∀ b ∈ seen ++ fs, b.sequence < u64Size) :
    Sound (seen ++ fs) (outs ++ (pushAll r fs).1) (pushAll r fs).2 := by
  induction fs generalizing seen outs r with
  | nil => simpa [pushAll] using h
  | cons f fs ih =>
      have hsplit : seen ++ f :: fs = seen ++ [f] ++ fs := by simp
      rw [hsplit] at hnodup hu64 ⊢
      have hbegins : (seen ++ [f]).Sublist (seen ++ [f] ++ fs) := List.sublist_append_left _ _
      have hstep := h.push (hnodup.sublist (hbegins.map _))
        (fun b hb => hu64 b (List.mem_append_left _ hb))
      rw [pushAll, ← List.append_assoc]
      exact ih hstep hnodup hu64

end VideoReassembly

end Paranoia
