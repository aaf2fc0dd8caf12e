import Paranoia.Server.Admin

/-!
# An envelope of the administrator, once

An entry stays in the table of nonces until a handler that has read the clock more than the
allowed distance past its timestamp takes its turn. No later reading lets the envelope in again;
but a handler may have read the clock before and still wait for the table, and then it finds
nothing (`carried_out_twice`). As long as no handler takes its turn after its own entry was
dropped, no envelope is carried out twice (`accepted_once`).
-/

namespace Paranoia

/-- After a turn of a request with this entry, another one was taken with a clock that had moved
too far past it. The last turn stands first. -/
def SeenNonce.Dropped (e : SeenNonce) : List AdminTurn → Prop
  | [] => False
  | t :: turns =>
      (maxTsSkewSecs < t.now - e.ts ∧ ∃ u ∈ turns, u.request.entry = e) ∨ e.Dropped turns

instance SeenNonce.decidableDropped (e : SeenNonce) : DecidablePred e.Dropped
  | [] => inferInstanceAs (Decidable False)
  | t :: turns =>
      have := e.decidableDropped turns
      inferInstanceAs (Decidable ((maxTsSkewSecs < t.now - e.ts
        ∧ ∃ u ∈ turns, u.request.entry = e) ∨ e.Dropped turns))

namespace SeenNonces

variable {seen : SeenNonces} {now : Nat} {env : AdminEnvelope} {e : SeenNonce}

theorem mem_retain : e ∈ seen.retain now ↔ e ∈ seen ∧ now - e.ts ≤ maxTsSkewSecs := by
  simp [retain]

/-- What a turn leaves of the entries. -/
theorem turn_keeps (he : e ∈ seen) (hnow : now - e.ts ≤ maxTsSkewSecs) :
    e ∈ (seen.turn now env).1 := by
  have hr : e ∈ seen.retain now := mem_retain.mpr ⟨he, hnow⟩
  unfold turn
  dsimp only
  split
  · exact hr
  · rename_i hnone
    refine Table.mem_insertOrReplace.mpr (.inl ⟨hr, ?_⟩)
    intro hnonce
    exact hnone (Option.isSome_iff_exists.mpr
      (Table.find?_isSome_of_mem hr (by simpa using hnonce)))

/-- A request that leaves the table with a fresh nonce has an entry now, and had none before. -/
theorem turn_ok (h : (seen.turn now env).2 = .ok ()) :
    (⟨env.nonce, env.ts⟩ : SeenNonce) ∈ (seen.turn now env).1
      ∧ ∀ e ∈ seen, now - e.ts ≤ maxTsSkewSecs → e.nonce ≠ env.nonce := by
  unfold turn at h ⊢
  dsimp only at h ⊢
  split at h
  · cases h
  · rename_i hnone
    rw [if_neg hnone]
    refine ⟨Table.mem_insertOrReplace.mpr (.inr rfl), ?_⟩
    intro e he hnow hnonce
    exact hnone (Option.isSome_iff_exists.mpr
      (Table.find?_isSome_of_mem (mem_retain.mpr ⟨he, hnow⟩) (by simpa using hnonce)))

end SeenNonces

namespace AdminRequest

/-- A request gets as far as the table only if the clock is not too far past its timestamp. -/
theorem checkArrival_window {r : AdminRequest} {now : Nat} {extra : String}
    (h : r.checkArrival now = .ok extra) : now - r.env.ts ≤ maxTsSkewSecs := by
  unfold checkArrival at h
  split at h
  · cases h
  · split at h
    · cases h
    · split at h
      · cases h
      · rename_i hwindow
        omega

end AdminRequest

namespace AdminWorld

variable {κ : Type} {verifies : κ → String → List Nat → Bool} {keys : AdminKeys κ}
variable {w w' : AdminWorld} {l : AdminLabel}

/-- No handler takes its turn after its own entry was dropped. -/
def InTime (w : AdminWorld) : AdminLabel → Prop
  | .turn t => ¬ t.request.entry.Dropped w.turns
  | _ => True

instance (w : AdminWorld) : DecidablePred w.InTime := fun l => by
  cases l <;> unfold InTime <;> infer_instance

/-! ## What one step does -/

inductive StepCase (w : AdminWorld) : AdminLabel → AdminWorld → Prop where
  | tick {now : Nat} : StepCase w (.tick now) { w with now := now }
  | arrive {r : AdminRequest} (hwindow : w.now - r.env.ts ≤ maxTsSkewSecs) :
      StepCase w (.arrive r) { w with waiting := ⟨r, w.now⟩ :: w.waiting }
  | refuse {r : AdminRequest} : StepCase w (.arrive r) w
  | fresh {t : AdminTurn} (hmem : t ∈ w.waiting)
      (hturn : (w.seen.turn t.now t.request.env).2 = .ok ()) :
      StepCase w (.turn t) { w with
        seen := (w.seen.turn t.now t.request.env).1, waiting := w.waiting.erase t
        fresh := t.request :: w.fresh, turns := t :: w.turns }
  | replayed {t : AdminTurn} (hmem : t ∈ w.waiting) :
      StepCase w (.turn t) { w with
        seen := (w.seen.turn t.now t.request.env).1, waiting := w.waiting.erase t
        turns := t :: w.turns }
  | accept {r : AdminRequest} (hmem : r ∈ w.fresh) :
      StepCase w (.verify r) { w with fresh := w.fresh.erase r, accepted := r :: w.accepted }
  | reject {r : AdminRequest} (hmem : r ∈ w.fresh) :
      StepCase w (.verify r) { w with fresh := w.fresh.erase r }

theorem step_cases (h : w.step verifies keys l = some w') : w.StepCase l w' := by
  cases l with
  | tick now =>
      simp only [step] at h
      split at h <;> cases h
      exact .tick
  | arrive r =>
      simp only [step] at h
      split at h
      · split at h <;> cases h
        · rename_i hcheck
          exact .arrive (AdminRequest.checkArrival_window hcheck)
        · exact .refuse
      · cases h
  | turn t =>
      simp only [step] at h
      split at h
      · rename_i hmem
        split at h <;> rename_i hturn <;> cases h
        · have := StepCase.fresh hmem (by rw [hturn])
          rwa [hturn] at this
        · have := StepCase.replayed hmem
          rwa [hturn] at this
      · cases h
  | verify r =>
      simp only [step] at h
      split at h
      · rename_i hmem
        split at h <;> cases h
        · exact .accept hmem
        · exact .reject hmem
      · cases h

/-! ## The invariant -/

/-- The requests that left the table with a fresh nonce and were not refused since. -/
def passed (w : AdminWorld) : List AdminRequest := w.fresh ++ w.accepted

/-- A handler that waits has read a clock that lets its request in, and what has passed the table
was never known by the same entry; the entry is still there unless it was dropped. -/
structure Guarded (w : AdminWorld) : Prop where
  window : ∀ t ∈ w.waiting, t.now - t.request.env.ts ≤ maxTsSkewSecs
  turned : ∀ r ∈ w.passed, ∃ t ∈ w.turns, t.request.entry = r.entry
  kept : ∀ r ∈ w.passed, ¬ r.entry.Dropped w.turns → r.entry ∈ w.seen
  once : (w.passed.map AdminRequest.entry).Nodup

theorem guarded_init (now : Nat) : (init now).Guarded := by
  constructor <;> simp [init, passed]

/-- A turn keeps the entries of what has passed. -/
theorem Guarded.kept_turn (hi : w.Guarded) {t : AdminTurn} {r : AdminRequest} (hr : r ∈ w.passed)
    (hd : ¬ r.entry.Dropped (t :: w.turns)) :
    r.entry ∈ (w.seen.turn t.now t.request.env).1 := by
  rw [SeenNonce.Dropped, not_or, not_and] at hd
  refine SeenNonces.turn_keeps (hi.kept r hr hd.2) ?_
  by_contra hnow
  exact hd.1 (by omega) (hi.turned r hr)

theorem mem_passed_of_erase {r s : AdminRequest} (h : s ∈ w.fresh.erase r ++ w.accepted) :
    s ∈ w.passed := by
  rcases List.mem_append.mp h with h | h
  · exact List.mem_append_left _ (List.mem_of_mem_erase h)
  · exact List.mem_append_right _ h

theorem Guarded.step (hi : w.Guarded) (hok : w.InTime l) (hs : w.StepCase l w') : w'.Guarded := by
  cases hs with
  | tick => exact ⟨hi.window, hi.turned, hi.kept, hi.once⟩
  | refuse => exact hi
  | arrive hwindow =>
      refine ⟨?_, hi.turned, hi.kept, hi.once⟩
      intro t ht
      rcases List.mem_cons.mp ht with rfl | ht
      · exact hwindow
      · exact hi.window t ht
  | @replayed t hmem =>
      refine ⟨fun u hu => hi.window u (List.mem_of_mem_erase hu), ?_,
        fun r hr hd => hi.kept_turn hr hd, hi.once⟩
      intro r hr
      obtain ⟨u, hu, he⟩ := hi.turned r hr
      exact ⟨u, List.mem_cons_of_mem _ hu, he⟩
  | @fresh t hmem hturn =>
      obtain ⟨hnew, hnone⟩ := SeenNonces.turn_ok hturn
      -- what has passed with this entry would still be in the table
      have hfirst : ∀ r ∈ w.passed, r.entry ≠ t.request.entry := by
        intro r hr he
        have hseen := hi.kept r hr (by rw [he]; exact hok)
        rw [he] at hseen
        exact hnone _ hseen (hi.window t hmem) rfl
      refine ⟨fun u hu => hi.window u (List.mem_of_mem_erase hu), ?_, ?_, ?_⟩
      · intro r hr
        rcases List.mem_cons.mp hr with rfl | hr
        · exact ⟨t, List.mem_cons_self, rfl⟩
        · obtain ⟨u, hu, he⟩ := hi.turned r hr
          exact ⟨u, List.mem_cons_of_mem _ hu, he⟩
      · intro r hr hd
        rcases List.mem_cons.mp hr with rfl | hr
        · exact hnew
        · exact hi.kept_turn hr hd
      · refine List.nodup_cons.mpr ⟨?_, hi.once⟩
        intro hmem'
        obtain ⟨r, hr, he⟩ := List.mem_map.mp hmem'
        exact hfirst r hr he
  | @accept r hmem =>
      have hperm : (w.fresh.erase r ++ r :: w.accepted).Perm w.passed :=
        List.perm_middle.trans ((List.perm_cons_erase hmem).symm.append_right w.accepted)
      exact ⟨hi.window, fun s hs => hi.turned s (hperm.mem_iff.mp hs),
        fun s hs => hi.kept s (hperm.mem_iff.mp hs),
        (hperm.map AdminRequest.entry).nodup_iff.mpr hi.once⟩
  | @reject r hmem =>
      refine ⟨hi.window, fun s hs => hi.turned s (mem_passed_of_erase hs),
        fun s hs => hi.kept s (mem_passed_of_erase hs), ?_⟩
      exact ((List.erase_sublist.append (List.Sublist.refl w.accepted)).map _).nodup hi.once

theorem guarded_reachable {now : Nat}
    (hr : Lts.Reach (step verifies keys) InTime (init now) w) : w.Guarded :=
  hr.invariant (guarded_init now) (fun _ _ _ _ hi hok hs => hi.step hok (step_cases hs))

/-- **No signed envelope is carried out twice**, as long as no handler takes its turn at the table
after its own entry was dropped: whatever requests are handled side by side. -/
theorem accepted_once {now : Nat} (hr : Lts.Reach (step verifies keys) InTime (init now) w) :
    (w.accepted.map AdminRequest.env).Nodup := by
  have honce := (guarded_reachable hr).once
  rw [passed, List.map_append] at honce
  have haccepted := (List.nodup_append.mp honce).2.1
  exact List.Nodup.of_map (fun env => (⟨env.nonce, env.ts⟩ : SeenNonce))
    (by rw [List.map_map]; exact haccepted)

/-! ## A handler that reads the clock and waits -/

section Example

/-- A signature that shows its key and the length of what it is over. -/
def plainSignature (key : Nat) (msg : String) (sig : List Nat) : Bool := sig = [key, msg.length]

def plainKeys : AdminKeys Nat := ⟨.ok 1, none⟩

/-- The users are listed. -/
def listUsers (nonce : String) (ts : Nat) (sig : String) : AdminRequest :=
  ⟨.usersList, ⟨"list_users", nonce, ts, none, none, sig⟩⟩

def signedAt1000 : AdminRequest := listUsers "n1" 1000 "ASI="

/-- Nobody has signed this one. -/
def unsignedAt1301 : AdminRequest := listUsers "n2" 1301 "AAA="

/-- An envelope is carried out, and sent again just in time; the handler has read the clock but
not yet the table when a request that came a second later drops the entry. -/
def waitingRun : List AdminLabel :=
  [.arrive signedAt1000, .turn ⟨signedAt1000, 1000⟩, .verify signedAt1000,
    .tick 1300, .arrive signedAt1000, .tick 1301, .arrive unsignedAt1301,
    .turn ⟨unsignedAt1301, 1301⟩, .turn ⟨signedAt1000, 1300⟩, .verify signedAt1000]

theorem carried_out_twice :
    ∃ w, Lts.exec (step plainSignature plainKeys) (init 1000) waitingRun = some w
      ∧ w.accepted = [signedAt1000, signedAt1000] :=
  ⟨_, rfl, by decide +kernel⟩

/-- The same requests, and the handler takes its turn before the other one. -/
def promptRun : List AdminLabel :=
  [.arrive signedAt1000, .turn ⟨signedAt1000, 1000⟩, .verify signedAt1000,
    .tick 1300, .arrive signedAt1000, .tick 1301, .arrive unsignedAt1301,
    .turn ⟨signedAt1000, 1300⟩, .turn ⟨unsignedAt1301, 1301⟩, .verify unsignedAt1301]

theorem accepted_once_prompt :
    (Lts.execWhile (step plainSignature plainKeys) InTime (init 1000) promptRun).isSome = true
      ∧ (((Lts.execWhile (step plainSignature plainKeys) InTime (init 1000) promptRun).getD
        (init 1000)).accepted.map AdminRequest.env).Nodup :=
  have h : (Lts.execWhile (step plainSignature plainKeys) InTime (init 1000) promptRun).isSome
      = true := by decide +kernel
  ⟨h, accepted_once (Lts.reach_getD h)⟩

end Example

end AdminWorld

end Paranoia
