import Mathlib.Data.Bool.AllAny
import Mathlib.Data.List.Pairwise
import Paranoia.Client.DurableLog

/-!
# What the durable log keeps

As long as no write fails and lines begin where lines can, the file is a sequence of whole lines with
different ids, and behind them a line that still lacks its end, or what a process that died has left
of one. Behind such a rest no line can begin.
-/

namespace Paranoia

/-! ## Torn writes -/

namespace LogFile

@[simp] theorem takeBytes_zero (cs : List Char) : takeBytes 0 cs = [] := by
  cases cs with
  | nil => rfl
  | cons c cs =>
      rw [takeBytes, if_neg (by have := c.utf8Size_pos; omega), if_pos rfl]

/-- A write that ends between two characters leaves the first of them. -/
theorem takeBytes_whole {n : Nat} {cs : List Char} (h : none ∉ takeBytes n cs) :
    ∃ t, t <+: cs ∧ takeBytes n cs = t.map some := by
  induction cs generalizing n with
  | nil => exact ⟨[], List.nil_prefix, rfl⟩
  | cons c cs ih =>
      rw [takeBytes] at h ⊢
      split
      · rename_i hle
        rw [if_pos hle] at h
        obtain ⟨t, ht, heq⟩ := ih fun hmem => h (List.mem_cons_of_mem _ hmem)
        exact ⟨c :: t, List.cons_prefix_cons.mpr ⟨rfl, ht⟩, by rw [heq]; rfl⟩
      · rename_i hlt
        rw [if_neg hlt] at h
        split
        · exact ⟨[], List.nil_prefix, rfl⟩
        · rename_i hn
          rw [if_neg hn] at h
          exact absurd List.mem_cons_self h

theorem readToString_map (cs : List Char) : readToString (cs.map some) = some cs := by
  rw [readToString, if_neg (by simp)]
  simp [List.reduceOption]

end LogFile

namespace LogCodec

variable {μ : Type} {codec : LogCodec μ} {L : List μ} {m : μ} {tail t : List Char}
  {last : Option μ}

/-- The lines of these messages. -/
def whole (codec : LogCodec μ) (L : List μ) : List Char := L.flatMap fun m => codec.text m ++ ['\n']

/-- What is behind the last whole line: nothing, a line without its end, or a part of one. -/
inductive Tail (codec : LogCodec μ) : List Char → Option μ → Prop where
  | nothing : Tail codec [] none
  | line {m : μ} : (codec.id m).isSome → Tail codec (codec.text m) (some m)
  | torn {m : μ} {t : List Char} : (codec.id m).isSome → t <+: codec.text m → t ≠ codec.text m →
      Tail codec t none

theorem Tail.one_line (hl : codec.Lawful) (h : Tail codec tail last) : '\n' ∉ tail := by
  cases h with
  | nothing => exact List.not_mem_nil
  | line _ => exact hl.one_line _
  | torn _ ht _ => exact fun hmem => hl.one_line _ (ht.subset hmem)

theorem Tail.eq_none (hl : codec.Lawful) (h : Tail codec [] last) : last = none := by
  generalize hnil : ([] : List Char) = tail at h
  cases h with
  | nothing => rfl
  | line hid => exact absurd hnil.symm (hl.nonempty _ hid)
  | torn => rfl

theorem row_text (hl : codec.Lawful) (hid : (codec.id m).isSome) :
    codec.row (codec.text m) = some m := by
  unfold row
  dsimp only
  rw [hl.trimmed m hid, if_neg (hl.nonempty m hid), hl.parse_text m hid]

theorem Tail.row (hl : codec.Lawful) (h : Tail codec tail last) : codec.row tail = last := by
  cases h with
  | nothing => rfl
  | line hid => exact row_text hl hid
  | torn hid ht hne =>
      unfold LogCodec.row
      dsimp only
      split
      · rfl
      · exact hl.torn _ hid _ ht hne

/-- What is read of whole lines and what is behind them. -/
theorem rows_whole (hl : codec.Lawful) (hL : ∀ m ∈ L, (codec.id m).isSome)
    (h : Tail codec tail last) :
    codec.rows ((codec.whole L ++ tail).map some) = L ++ last.toList := by
  rw [rows, LogFile.readToString_map]
  dsimp only
  induction L with
  | nil =>
      rw [whole, List.flatMap_nil, List.nil_append, List.splitOn_eq_singleton (h.one_line hl),
        List.filterMap_cons, h.row hl]
      cases last <;> rfl
  | cons m L ih =>
      obtain ⟨hid, hL⟩ := List.forall_mem_cons.mp hL
      have hsplit : codec.whole (m :: L) ++ tail = codec.text m ++ '\n' :: (codec.whole L ++ tail) := by
        simp [whole]
      rw [hsplit, List.splitOn_append_cons_self_of_not_mem (hl.one_line m), List.filterMap_cons,
        row_text hl hid]
      exact congrArg (m :: ·) (ih hL)

theorem whole_concat (L : List μ) (m : μ) :
    codec.whole (L ++ [m]) = codec.whole L ++ codec.text m ++ ['\n'] := by
  simp [whole]

/-- Where a line can begin there is nothing behind the last whole one. -/
theorem Tail.of_fresh (hl : codec.Lawful) (h : Tail codec tail last)
    (hfresh : LogFile.Fresh ((codec.whole L ++ tail).map some)) : tail = [] := by
  rcases hfresh with hnil | hlast
  · exact (List.append_eq_nil_iff.mp (List.map_eq_nil_iff.mp hnil)).2
  · rw [List.getLast?_map, List.getLast?_append] at hlast
    cases htail : tail.getLast? with
    | none => exact List.getLast?_eq_none_iff.mp htail
    | some c =>
        rw [htail] at hlast
        obtain rfl : c = '\n' := by simpa using hlast
        exact absurd (List.mem_of_getLast? htail) (h.one_line hl)

end LogCodec

/-! ## The invariant -/

namespace LogProcess

variable {μ : Type}

/-- What a process has, beside a file with these whole lines and this last one. -/
structure Inv (codec : LogCodec μ) (L : List μ) (last : Option μ) (x : LogProcess μ) : Prop where
  seen : ∀ id ∈ x.seen, ∃ r ∈ L ++ last.toList, codec.id r = some id
  known : ∀ k, x.work = some k → ∀ m ∈ k.todo, (codec.id m).isSome
  work : ∀ k, x.work = some k → ∀ m ∈ k.new, m ∈ k.todo ∨ m ∈ L
  half : ∀ m, x.next = some (m, true) → last = some m

variable {codec : LogCodec μ} {L L' : List μ} {last last' : Option μ} {x : LogProcess μ}

theorem Inv.fresh : Inv codec L last fresh where
  seen _ h := absurd h List.not_mem_nil
  known _ h := by cases h
  work _ h := by cases h
  half _ h := by cases h

/-- Lines come and none goes; a line that a process has begun is ended by itself. -/
theorem Inv.mono (h : x.Inv codec L last) (hL : ∀ m ∈ L, m ∈ L')
    (hall : ∀ m ∈ L ++ last.toList, m ∈ L' ++ last'.toList)
    (hhalf : ∀ m, x.next ≠ some (m, true)) : x.Inv codec L' last' where
  seen id hid := (h.seen id hid).imp fun _ hr => ⟨hall _ hr.1, hr.2⟩
  known := h.known
  work k hk m hm := (h.work k hk m hm).imp_right (hL m)
  half m hm := absurd hm (hhalf m)

theorem Inv.loadSeen (hrows : codec.rows file = L ++ last.toList) (h : x.Inv codec L last) :
    (x.loadSeen codec file).Inv codec L last := by
  unfold LogProcess.loadSeen
  split
  · exact h
  · refine { h with seen := fun id hid => ?_ }
    rcases List.mem_append.mp hid with hid | hid
    · exact h.seen id hid
    · obtain ⟨r, hr, hid⟩ := List.mem_filterMap.mp hid
      exact ⟨r, hrows ▸ hr, hid⟩

end LogProcess

namespace LogWorld

variable {μ : Type} {codec : LogCodec μ} {w w' : LogWorld μ}

structure Lines (codec : LogCodec μ) (w : LogWorld μ) (L : List μ) (tail : List Char)
    (last : Option μ) : Prop where
  file : w.file = (codec.whole L ++ tail).map some
  tail : codec.Tail tail last
  known : ∀ m ∈ L, (codec.id m).isSome
  once : (L ++ last.toList).Pairwise fun a b => codec.id a ≠ codec.id b
  processes : ∀ p, (w.process p).Inv codec L last
  alone : ∀ p q m m', (w.process p).next = some (m, true) → (w.process q).next = some (m', true) →
    p = q
  written : ∀ m ∈ w.written, m ∈ L

variable {L L' : List μ} {tail tail' : List Char} {last last' : Option μ} {p q : Nat}
  {x : LogProcess μ} {m : μ}

theorem set_self : (w.set p x).process p = x := Function.update_self ..

theorem set_of_ne (h : q ≠ p) : (w.set p x).process q = w.process q := Function.update_of_ne h ..

theorem Lines.rows (hl : codec.Lawful) (h : w.Lines codec L tail last) :
    codec.rows w.file = L ++ last.toList := by
  rw [h.file]
  exact LogCodec.rows_whole hl h.known h.tail

/-- A process changes, but not by beginning a line. -/
theorem Lines.set (h : w.Lines codec L tail last) (hx : x.Inv codec L last)
    (hhalf : ∀ m, x.next = some (m, true) → (w.process p).next = some (m, true)) :
    (w.set p x).Lines codec L tail last := by
  have hnext : ∀ q m, ((w.set p x).process q).next = some (m, true) →
      (w.process q).next = some (m, true) := by
    intro q m hq
    by_cases hqp : q = p
    · subst hqp
      rw [set_self] at hq
      exact hhalf m hq
    · rwa [set_of_ne hqp] at hq
  have hprocesses : ∀ q, ((w.set p x).process q).Inv codec L last := by
    intro q
    by_cases hqp : q = p
    · subst hqp
      rwa [set_self]
    · rw [set_of_ne hqp]
      exact h.processes q
  exact ⟨h.file, h.tail, h.known, h.once, hprocesses,
    fun q q' m m' hq hq' => h.alone q q' m m' (hnext q m hq) (hnext q' m' hq'), h.written⟩

/-- A process writes while no other one has begun a line. -/
theorem Lines.write {chars : LogFile} (h : w.Lines codec L tail last)
    (hfile : w.file ++ chars = (codec.whole L' ++ tail').map some) (htail : codec.Tail tail' last')
    (hknown : ∀ m ∈ L', (codec.id m).isSome)
    (honce : (L' ++ last'.toList).Pairwise fun a b => codec.id a ≠ codec.id b)
    (hL : ∀ m ∈ L, m ∈ L') (hall : ∀ m ∈ L ++ last.toList, m ∈ L' ++ last'.toList)
    (hx : x.Inv codec L' last')
    (hothers : ∀ q, q ≠ p → ∀ m, (w.process q).next ≠ some (m, true)) :
    ((w.append chars).set p x).Lines codec L' tail' last' where
  file := hfile
  tail := htail
  known := hknown
  once := honce
  processes q := by
    by_cases hqp : q = p
    · subst hqp
      rwa [set_self]
    · rw [set_of_ne hqp]
      exact (h.processes q).mono hL hall (hothers q hqp)
  alone q q' m m' hq hq' := by
    have hp : ∀ q m, (((w.append chars).set p x).process q).next = some (m, true) → q = p := by
      intro q m hq
      by_contra hqp
      rw [set_of_ne hqp] at hq
      exact hothers q hqp m hq
    exact (hp q m hq).trans (hp q' m' hq').symm
  written m hm := hL m (h.written m hm)

/-- Where a line can begin no process has begun one. -/
theorem Lines.none_half (hl : codec.Lawful) (h : w.Lines codec L tail last) (hfresh : w.file.Fresh)
    (q : Nat) (m : μ) : tail = [] ∧ last = none ∧ (w.process q).next ≠ some (m, true) := by
  have htail : tail = [] := h.tail.of_fresh hl (h.file ▸ hfresh)
  subst htail
  have hlast := h.tail.eq_none hl
  refine ⟨rfl, hlast, fun hq => ?_⟩
  have hsome := (h.processes q).half m hq
  rw [hlast] at hsome
  cases hsome

/-- A part of a line is written where one can begin. -/
theorem Lines.begin (hl : codec.Lawful) (h : w.Lines codec L tail last) (hb : w.Begins codec m)
    (hid : (codec.id m).isSome) (htail : codec.Tail tail' last')
    (hlast : last' = none ∨ last' = some m) (hx : x.Inv codec L last') :
    ((w.append (tail'.map some)).set p x).Lines codec L tail' last' := by
  obtain ⟨hfresh, hnew⟩ := hb
  obtain ⟨rfl, rfl, -⟩ := h.none_half hl hfresh 0 m
  rw [h.rows hl, Option.toList_none, List.append_nil] at hnew
  have hfile : w.file ++ tail'.map some = (codec.whole L ++ tail').map some := by
    rw [h.file, List.append_nil, List.map_append]
  refine h.write hfile htail h.known ?_ (fun _ hm => hm)
    (fun m hm => List.mem_append_left _ (by simpa using hm)) hx
    fun q _ m => (h.none_half hl hfresh q m).2.2
  have honce : L.Pairwise fun a b => codec.id a ≠ codec.id b := by simpa using h.once
  rcases hlast with rfl | rfl
  · simpa using honce
  · refine List.pairwise_append.mpr ⟨honce, List.pairwise_singleton .., fun a ha b hb heq => ?_⟩
    obtain rfl := List.mem_singleton.mp hb
    exact hnew (heq ▸ List.mem_map_of_mem ha)

/-- The line that a process has begun gets its end. -/
theorem Lines.complete (h : w.Lines codec L tail last) (hp : (w.process p).next = some (m, true))
    (hx : x.Inv codec (L ++ [m]) none) :
    ((w.append [some '\n']).set p x).Lines codec (L ++ [m]) [] none := by
  obtain rfl := (h.processes p).half m hp
  have hlast := h.tail
  cases hlast with
  | line hid =>
      have hfile : w.file ++ [some '\n'] = (codec.whole (L ++ [m]) ++ []).map some := by
        rw [h.file, LogCodec.whole_concat, List.append_nil, List.map_append, List.map_append,
          List.map_append]
        rfl
      refine h.write hfile .nothing (fun a ha => ?_) ?_ (fun a ha => List.mem_append_left _ ha)
        (fun a ha => List.mem_append_left _ ha) hx fun q hqp m' hq => hqp (h.alone q p m' m hq hp)
      · rcases List.mem_append.mp ha with ha | ha
        · exact h.known a ha
        · exact List.mem_singleton.mp ha ▸ hid
      · simpa using h.once

/-! ## Steps -/

theorem next_eq {k : LogWork μ} {todo : List μ} (hk : x.work = some k) (htodo : k.todo = m :: todo) :
    x.next = some (m, k.half) := by
  rw [LogProcess.next, hk, Option.bind_some, htodo]
  rfl

theorem next_none (hk : x.work = none) : x.next = none := by
  rw [LogProcess.next, hk]
  rfl

theorem Lines.persist (hl : codec.Lawful) (h : w.Lines codec L tail last) {msgs : List μ}
    {opens : Bool} (hs : w.step codec (.persist p msgs opens) = some w') :
    w'.Lines codec L tail last := by
  unfold step at hs
  dsimp only at hs
  cases hwork : (w.process p).work with
  | some k =>
      rw [hwork] at hs
      cases hs
  | none =>
      rw [hwork] at hs
      dsimp only at hs
      have hload := (h.processes p).loadSeen (h.rows hl)
      have hidle : ((w.process p).loadSeen codec w.file).work = none := by
        unfold LogProcess.loadSeen
        split
        · exact hwork
        · exact hwork
      generalize (w.process p).loadSeen codec w.file = x at hs hload hidle
      split at hs
      · cases hs
        exact h
      · cases hs
        split
        · refine h.set hload fun m hm => ?_
          rw [next_none hidle] at hm
          cases hm
        · -- what is to be written has an id
          have hids : ∀ m ∈ x.unseen codec msgs, (codec.id m).isSome := by
            intro m hm
            have hkeep := (List.mem_filter.mp hm).2
            cases hid : codec.id m with
            | none =>
                rw [hid] at hkeep
                cases hkeep
            | some id => rfl
          have hnext : ∀ m, LogProcess.next { x with
              work := some ⟨x.unseen codec msgs, x.unseen codec msgs, false⟩ } ≠ some (m, true) := by
            intro m hm
            rw [LogProcess.next, Option.bind_some] at hm
            obtain ⟨a, -, ha⟩ := Option.map_eq_some_iff.mp hm
            cases ha
          refine h.set ⟨hload.seen, fun k hk m hm => ?_, fun k hk m hm => ?_, fun m hm => ?_⟩
            fun m hm => absurd hm (hnext m)
          · cases hk
            exact hids m hm
          · cases hk
            exact .inl hm
          · exact absurd hm (hnext m)

theorem Lines.write_step (hl : codec.Lawful) (h : w.Lines codec L tail last)
    (hok : w.StepOk codec (.write p)) (hs : w.step codec (.write p) = some w') :
    ∃ L' tail' last', w'.Lines codec L' tail' last' := by
  have hp := h.processes p
  unfold step at hs
  unfold StepOk at hok
  dsimp only at hs hok
  cases hwork : (w.process p).work with
  | none =>
      rw [hwork] at hs
      cases hs
  | some k =>
      obtain ⟨new, todo, half⟩ := k
      rw [hwork] at hs
      cases todo with
      | nil => cases hs
      | cons m todo =>
          have hnext := next_eq hwork rfl
          have hid : (codec.id m).isSome := hp.known _ hwork m List.mem_cons_self
          cases half with
          | false =>
              -- the line
              cases hs
              rw [hnext] at hok
              refine ⟨L, codec.text m, some m, h.begin hl hok hid (.line hid) (.inr rfl) ?_⟩
              obtain ⟨rfl, rfl, -⟩ := h.none_half hl hok.1 p m
              refine ⟨fun id hid => ?_, fun k hk a ha => ?_, fun k hk a ha => ?_, fun a ha => ?_⟩
              · exact (hp.seen id hid).imp fun _ hr => ⟨by simpa using Or.inl (by simpa using hr.1), hr.2⟩
              · cases hk
                exact hp.known _ hwork a ha
              · cases hk
                exact hp.work _ hwork a ha
              · obtain ⟨rfl, -⟩ := Prod.mk.inj (Option.some.inj ha)
                rfl
          | true =>
              -- its end
              cases hs
              obtain rfl := hp.half m hnext
              have hx : LogProcess.Inv codec (L ++ [m]) none
                  { w.process p with work := some ⟨new, todo, false⟩ } := by
                refine ⟨fun id hid => ?_, fun k hk a ha => ?_, fun k hk a ha => ?_, fun a ha => ?_⟩
                · exact (hp.seen id hid).imp fun _ hr => ⟨by simpa using hr.1, hr.2⟩
                · cases hk
                  exact hp.known _ hwork a (List.mem_cons_of_mem _ ha)
                · cases hk
                  rcases hp.work _ hwork a ha with htodo | hin
                  · rcases List.mem_cons.mp htodo with rfl | htodo
                    · exact .inr (List.mem_append_right _ (List.mem_singleton_self _))
                    · exact .inl htodo
                  · exact .inr (List.mem_append_left _ hin)
                · rw [LogProcess.next, Option.bind_some] at ha
                  obtain ⟨b, -, hb⟩ := Option.map_eq_some_iff.mp ha
                  cases hb
              have hnew := h.complete hnext hx
              refine ⟨L ++ [m], [], none, { hnew with written := fun a ha => ?_ }⟩
              rcases List.mem_append.mp ha with ha | ha
              · exact hnew.written a ha
              · exact List.mem_append_right _ ha

theorem Lines.finish (h : w.Lines codec L tail last) (hs : w.step codec (.finish p) = some w') :
    w'.Lines codec L tail last := by
  have hp := h.processes p
  unfold step at hs
  dsimp only at hs
  cases hwork : (w.process p).work with
  | none =>
      rw [hwork] at hs
      cases hs
  | some k =>
      obtain ⟨new, todo, half⟩ := k
      rw [hwork] at hs
      cases todo with
      | cons m todo => cases hs
      | nil =>
          cases hs
          have hidle : ∀ k, (none : Option (LogWork μ)) ≠ some k := fun k hk => by cases hk
          refine h.set ⟨fun id hid => ?_, fun k hk => absurd hk (hidle k),
            fun k hk => absurd hk (hidle k), fun m hm => by cases hm⟩ fun m hm => by cases hm
          rcases List.mem_append.mp hid with hid | hid
          · exact hp.seen id hid
          · obtain ⟨r, hr, hid⟩ := List.mem_filterMap.mp hid
            have hin := (hp.work _ hwork r hr).resolve_left List.not_mem_nil
            exact ⟨r, List.mem_append_left _ hin, hid⟩

theorem Lines.crash (hl : codec.Lawful) (h : w.Lines codec L tail last) {bytes : Nat}
    (hok : w.StepOk codec (.crash p bytes)) (hs : w.step codec (.crash p bytes) = some w') :
    ∃ L' tail' last', w'.Lines codec L' tail' last' := by
  have hsame : (w.set p .fresh).Lines codec L tail last :=
    h.set .fresh fun m hm => by cases hm
  unfold step at hs
  unfold StepOk at hok
  dsimp only at hs hok
  cases hnext : (w.process p).next with
  | none =>
      rw [hnext] at hs
      cases hs
      exact ⟨L, tail, last, hsame⟩
  | some next =>
      obtain ⟨m, half⟩ := next
      rw [hnext] at hs hok
      cases hs
      have hzero : (w.append (LogFile.takeBytes 0 (codec.piece (m, half)))).set p .fresh
          = w.set p .fresh := by
        rw [LogFile.takeBytes_zero, append, List.append_nil]
      cases half with
      | false =>
          dsimp only at hok
          rcases hok with rfl | ⟨hb, hwhole⟩
          · exact ⟨L, tail, last, hzero ▸ hsame⟩
          · have hid : (codec.id m).isSome := by
              obtain ⟨k, hk, hhead⟩ := Option.bind_eq_some_iff.mp hnext
              obtain ⟨a, ha, heq⟩ := Option.map_eq_some_iff.mp hhead
              obtain ⟨rfl, -⟩ := Prod.mk.inj heq
              exact (h.processes p).known k hk a (List.mem_of_head? ha)
            obtain ⟨t, ht, htake⟩ := LogFile.takeBytes_whole hwhole
            rw [LogCodec.piece, htake]
            by_cases hall : t = codec.text m
            · subst hall
              exact ⟨L, _, some m, h.begin hl hb hid (.line hid) (.inr rfl) .fresh⟩
            · exact ⟨L, t, none, h.begin hl hb hid (.torn hid ht hall) (.inl rfl) .fresh⟩
      | true =>
          cases bytes with
          | zero => exact ⟨L, tail, last, hzero ▸ hsame⟩
          | succ n =>
              have htake : LogFile.takeBytes (n + 1) (codec.piece (m, true)) = [some '\n'] := by
                rw [LogCodec.piece, LogFile.takeBytes,
                  if_pos (by rw [show '\n'.utf8Size = 1 by decide]; omega)]
                rfl
              rw [htake]
              exact ⟨L ++ [m], [], none, h.complete hnext .fresh⟩

theorem Lines.step (hl : codec.Lawful) (h : w.Lines codec L tail last) {l : LogStep μ}
    (hok : w.StepOk codec l) (hs : w.step codec l = some w') :
    ∃ L' tail' last', w'.Lines codec L' tail' last' := by
  cases l with
  | persist p msgs opens => exact ⟨L, tail, last, h.persist hl hs⟩
  | write p => exact h.write_step hl hok hs
  | fail p bytes => exact absurd hok id
  | finish p => exact ⟨L, tail, last, h.finish hs⟩
  | crash p bytes => exact h.crash hl hok hs

/-! ## Runs -/

theorem Lines.init : (init : LogWorld μ).Lines codec [] [] none where
  file := rfl
  tail := .nothing
  known _ h := absurd h List.not_mem_nil
  once := List.Pairwise.nil
  processes _ := .fresh
  alone _ _ _ _ h := by cases h
  written _ h := absurd h List.not_mem_nil

theorem lines_of_reach (hl : codec.Lawful)
    (hr : Lts.Reach (LogWorld.step codec) (LogWorld.StepOk codec) init w) :
    ∃ L tail last, w.Lines codec L tail last := by
  let P (w : LogWorld μ) : Prop := ∃ L tail last, w.Lines codec L tail last
  refine Lts.Reach.invariant (P := P) ⟨[], [], none, .init⟩ (fun w l w' _ h hok hs => ?_) hr
  obtain ⟨L, tail, last, h⟩ := h
  exact h.step hl hok hs

theorem Lines.sound (hl : codec.Lawful) (h : w.Lines codec L tail last) : w.Sound codec := by
  have hrows := h.rows hl
  have hseen : ∀ p, ∀ id ∈ (w.process p).seen, ∃ r ∈ codec.rows w.file, codec.id r = some id :=
    fun p => hrows ▸ (h.processes p).seen
  have honce : (codec.rows w.file).Pairwise fun a b => codec.id a ≠ codec.id b := hrows ▸ h.once
  have hlines : ∀ m ∈ w.written, m ∈ codec.rows w.file :=
    fun m hm => hrows ▸ List.mem_append_left _ (h.written m hm)
  refine ⟨hseen, fun p msgs m hm hid hnew => ?_, hlines, honce, fun m hm => ?_⟩
  · obtain ⟨id, hid⟩ := Option.isSome_iff_exists.mp hid
    refine List.mem_filter.mpr ⟨hm, ?_⟩
    rw [hid]
    refine decide_eq_true fun hin => ?_
    obtain ⟨r, hr, heq⟩ := ((h.processes p).loadSeen hrows).seen id hin
    exact hnew r (hrows ▸ hr) (heq.trans hid.symm)
  · have hread : codec.read w.file 0 none = codec.rows w.file := by
      unfold LogCodec.read
      dsimp only
      rw [if_neg fun hlt => absurd hlt.1 (lt_irrefl _)]
    rw [hread]
    obtain ⟨pre, post, hsplit⟩ := List.append_of_mem (hlines m hm)
    rw [hsplit] at honce ⊢
    obtain ⟨-, hpost, hcross⟩ := List.pairwise_append.mp honce
    rw [List.filter_append, List.filter_cons_of_pos (by simp)]
    have hpre : pre.filter (fun r => codec.id r = codec.id m) = [] :=
      List.filter_eq_nil_iff.mpr fun a ha heq =>
        hcross a ha m List.mem_cons_self (of_decide_eq_true heq)
    have hrest : post.filter (fun r => codec.id r = codec.id m) = [] :=
      List.filter_eq_nil_iff.mpr fun a ha heq =>
        (List.pairwise_cons.mp hpost).1 a ha (of_decide_eq_true heq).symm
    rw [hpre, hrest, List.nil_append]

/-- **The log is durable** as long as no write fails, lines begin where they can, and what is
written is not in the file: then at every moment what a process takes as seen is in the file, no id
is on two lines, and each message that was written is read once. -/
theorem durable {codec : LogCodec μ} (hl : codec.Lawful)
    (hr : Lts.Reach (LogWorld.step codec) (LogWorld.StepOk codec) init w) : w.Sound codec := by
  obtain ⟨L, tail, last, h⟩ := lines_of_reach hl hr
  exact h.sound hl

/-! ## A log of objects that have nothing but an id -/

def idText (n : Nat) : List Char :=
  ['{', '"', 'i', 'd', '"', ':', '"'] ++ (List.replicate n 'a' ++ ['"', '}'])

/-- The message with the id `aa…a` has the line `{"id":"aa…a"}`. -/
def idCodec : LogCodec Nat where
  id n := some (String.ofList (List.replicate n 'a'))
  sender _ := none
  text := idText
  parse line := if line = idText (line.length - 9) then some (line.length - 9) else none

theorem length_idText (n : Nat) : (idText n).length = n + 9 := by
  simp only [idText, List.length_append, List.length_replicate, List.length_cons, List.length_nil]
  omega

theorem idText_white (n : Nat) : ∀ c ∈ idText n, Client.isWhitespace c = false ∧ c ≠ '\n' := by
  have hall : ∀ c ∈ ['{', '"', 'i', 'd', '"', ':', '"'] ++ 'a' :: ['"', '}'],
      Client.isWhitespace c = false ∧ c ≠ '\n' := List.all_iff_forall_prop.mp (by decide)
  intro c hc
  refine hall c ?_
  rcases List.mem_append.mp hc with hc | hc
  · exact List.mem_append_left _ hc
  · refine List.mem_append_right _ ?_
    rcases List.mem_append.mp hc with hc | hc
    · rw [List.eq_of_mem_replicate hc]
      exact List.mem_cons_self
    · exact List.mem_cons_of_mem _ hc

/-- What goes on where a line ends is another character. -/
theorem idText_cancel {k n : Nat} {rest : List Char} (hlt : k < n) : idText k ++ rest ≠ idText n := by
  intro h
  obtain ⟨d, rfl⟩ : ∃ d, n = k + (d + 1) := ⟨n - k - 1, by omega⟩
  rw [idText, idText, List.append_assoc, List.append_cancel_left_eq, List.replicate_add,
    List.append_assoc, List.append_assoc, List.append_cancel_left_eq] at h
  exact absurd (List.cons.inj h).1 (by decide)

theorem trimLine_eq {line : List Char} (h : ∀ c ∈ line, Client.isWhitespace c = false) :
    trimLine line = line := by
  have hdrop : ∀ l : List Char, (∀ c ∈ l, Client.isWhitespace c = false) →
      l.dropWhile Client.isWhitespace = l := by
    intro l hl
    cases l with
    | nil => rfl
    | cons c l => rw [List.dropWhile_cons, hl c List.mem_cons_self]; rfl
  rw [trimLine, hdrop line h, hdrop _ fun c hc => h c (List.mem_reverse.mp hc), List.reverse_reverse]

theorem idCodec_lawful : idCodec.Lawful where
  parse_text n _ := by
    have hlen : (idText n).length - 9 = n := by
      rw [length_idText]
      omega
    exact (if_pos (hlen.symm ▸ rfl)).trans (congrArg some hlen)
  one_line n h := (idText_white n _ h).2 rfl
  trimmed n _ := trimLine_eq fun c hc => (idText_white n c hc).1
  nonempty n _ h := by
    have := congrArg List.length h
    rw [show (idCodec.text n) = idText n from rfl, length_idText] at this
    simp at this
  torn n _ t ht hne := by
    rw [trimLine_eq fun c hc => (idText_white n c (ht.subset hc)).1]
    refine if_neg fun heq => ?_
    obtain ⟨rest, hrest⟩ := ht
    rw [heq] at hrest hne
    refine idText_cancel ?_ hrest
    have hlen := congrArg List.length hrest
    rw [List.length_append, show idCodec.text n = idText n from rfl, length_idText,
      length_idText] at hlen
    rcases Nat.lt_or_ge (t.length - 9) n with hlt | hge
    · exact hlt
    · obtain rfl : t.length - 9 = n := by omega
      exact absurd rfl hne

/-- Two messages, one after the other. -/
def twoPersists : List (LogStep Nat) :=
  [.persist 0 [1] true, .write 0, .write 0, .finish 0,
    .persist 1 [1, 2] true, .write 1, .write 1, .finish 1]

theorem durable_twoPersists :
    ((Lts.execWhile (LogWorld.step idCodec) (LogWorld.StepOk idCodec) init twoPersists).getD
      init).Sound idCodec :=
  durable idCodec_lawful (Lts.reach_getD (by decide))

def fullDisk : List (LogStep Nat) := [.persist 0 [1] true, .fail 0 0, .finish 0]

/-- A message that the disk was too full for is taken as seen. -/
theorem full_disk :
    ¬ ∀ (codec : LogCodec Nat), codec.Lawful → ∀ w : LogWorld Nat,
      Lts.Reach (LogWorld.step codec) (fun _ _ => True) init w → w.Sound codec := by
  intro h
  have hreach : Lts.Reach (LogWorld.step idCodec) (fun _ _ => True) init
      ((Lts.execWhile (LogWorld.step idCodec) (fun _ _ => True) init fullDisk).getD init) :=
    Lts.reach_getD (by decide)
  have hrows : idCodec.rows ((Lts.execWhile (LogWorld.step idCodec) (fun _ _ => True) init
      fullDisk).getD init).file = [] := by decide
  obtain ⟨r, hr, -⟩ := (h idCodec idCodec_lawful _ hreach).seen 0 "a" (by decide)
  rw [hrows] at hr
  exact absurd hr List.not_mem_nil

end LogWorld

end Paranoia
