import Paranoia.Proof.Deletion
import Paranoia.Proof.KeyOps
import Paranoia.Server.Prune

/-!
# Pruning and live dialogues

A prune decides with the users it has read at its start what is to go, and deletes one dialogue
after the other later. Where nobody is registered in between whose dialogue it is going to delete,
a packet of two registered users stays: `Sound` says that no prune dooms such a dialogue, and only
registering a user and listing the store can break it.

Undisturbed, a prune deletes the packets of every other dialogue, and no other key. A number `0`
it misses, since its scan begins at `1`: `prune_exact` has both.
-/

namespace Paranoia

open Lexical StoreKey KeyStore

variable {hash : String → DialogueId} {users : List String} {t : List Char}

/-! ## Live dialogues -/

/-- The dialogue of two of the users, or of one of them alone. -/
def IsDialogue (hash : String → DialogueId) (users : List String) (t : List Char) : Prop :=
  ∃ a ∈ users, ∃ b ∈ users, (makeDialogueId hash a b).text = t

instance : Decidable (IsDialogue hash users t) := by
  unfold IsDialogue
  infer_instance

theorem makeDialogueId_comm (a b : String) : makeDialogueId hash a b = makeDialogueId hash b a := by
  unfold makeDialogueId
  rw [DialogueKey.new_comm]

theorem mem_validDialogueIds : t ∈ validDialogueIds hash users ↔ IsDialogue hash users t := by
  induction users with
  | nil => simp [validDialogueIds, IsDialogue]
  | cons a users ih =>
      rw [validDialogueIds, List.mem_append, List.mem_cons, List.mem_map, ih]
      constructor
      · rintro ((rfl | ⟨b, hb, rfl⟩) | ⟨b, hb, c, hc, rfl⟩)
        · exact ⟨a, List.mem_cons_self, a, List.mem_cons_self, rfl⟩
        · exact ⟨a, List.mem_cons_self, b, List.mem_cons_of_mem _ hb, rfl⟩
        · exact ⟨b, List.mem_cons_of_mem _ hb, c, List.mem_cons_of_mem _ hc, rfl⟩
      · rintro ⟨b, hb, c, hc, rfl⟩
        rcases List.mem_cons.mp hb with rfl | hb'
        · rcases List.mem_cons.mp hc with rfl | hc'
          · exact .inl (.inl rfl)
          · exact .inl (.inr ⟨c, hc', rfl⟩)
        · rcases List.mem_cons.mp hc with rfl | hc'
          · exact .inl (.inr ⟨b, hb', by rw [makeDialogueId_comm]⟩)
          · exact .inr ⟨b, hb', c, hc', rfl⟩

theorem IsDialogue.mono {users' : List String} (h : IsDialogue hash users t)
    (hsub : ∀ u ∈ users, u ∈ users') : IsDialogue hash users' t := by
  obtain ⟨a, ha, b, hb, rfl⟩ := h
  exact ⟨a, hsub a ha, b, hsub b hb, rfl⟩

/-- A registration makes the dialogues of the new user live. -/
theorem isDialogue_reg {username : String} (h : IsDialogue hash (users ++ [username]) t) :
    IsDialogue hash users t ∨
      ∃ u ∈ username :: users, t = (makeDialogueId hash username u).text := by
  obtain ⟨a, ha, b, hb, rfl⟩ := h
  have hmem : ∀ u ∈ users ++ [username], u ∈ users ∨ u = username := fun u hu => by
    simpa using hu
  rcases hmem a ha with ha' | rfl
  · rcases hmem b hb with hb' | rfl
    · exact .inl ⟨a, ha', b, hb', rfl⟩
    · exact .inr ⟨a, List.mem_cons_of_mem _ ha', by rw [makeDialogueId_comm]⟩
  · refine .inr ⟨b, ?_, rfl⟩
    rcases hmem b hb with hb' | rfl
    · exact List.mem_cons_of_mem _ hb'
    · exact List.mem_cons_self

/-! ## What a prune does next -/

/-- Whether the prune is about to delete that dialogue. -/
def PrunePoint.Dooms (t : List Char) : PrunePoint → Prop
  | .deleting valid all _ => t ∈ all ∧ t ∉ valid
  | .writing valid id _ all _ => t = id ∨ t ∈ all ∧ t ∉ valid
  | _ => False

instance : (p : PrunePoint) → Decidable (p.Dooms t)
  | .listing _ => isFalse id
  | .deleting valid all _ => inferInstanceAs (Decidable (t ∈ all ∧ t ∉ valid))
  | .writing valid cur _ all _ => inferInstanceAs (Decidable (t = cur ∨ t ∈ all ∧ t ∉ valid))
  | .answered _ => isFalse id
  | .failed _ => isFalse id

/-- Whether the store may be listed: every dialogue in it that is live is one of two users the
prune has read. -/
def PrunePoint.MayRun (hash : String → DialogueId) (users : List String)
    (ks : KeyStore (List UInt8)) : PrunePoint → Prop
  | .listing valid => ∀ e ∈ ks.listDialogues, IsDialogue hash users e.1 → e.1 ∈ valid
  | _ => True

instance (ks : KeyStore (List UInt8)) : (p : PrunePoint) → Decidable (p.MayRun hash users ks)
  | .listing valid =>
      inferInstanceAs (Decidable (∀ e ∈ ks.listDialogues, IsDialogue hash users e.1 → e.1 ∈ valid))
  | .deleting _ _ _ => isTrue trivial
  | .writing _ _ _ _ _ => isTrue trivial
  | .answered _ => isTrue trivial
  | .failed _ => isTrue trivial

/-- What a prune makes of its point and of the store. -/
inductive PrunePoint.Moves :
    PrunePoint → KeyStore (List UInt8) → PrunePoint → KeyStore (List UInt8) → Prop where
  | list {valid : List (List Char)} {ks : KeyStore (List UInt8)} :
      Moves (.listing valid) ks (.deleting valid (ks.listDialogues.map (·.1)) []) ks
  | refuse {valid : List (List Char)} {ks : KeyStore (List UInt8)} {error : String} :
      Moves (.listing valid) ks (.failed error) ks
  | finish {valid pruned : List (List Char)} {ks : KeyStore (List UInt8)} :
      Moves (.deleting valid [] pruned) ks (.answered pruned) ks
  | pass {valid all pruned : List (List Char)} {id : List Char} {ks : KeyStore (List UInt8)} :
      Moves (.deleting valid (id :: all) pruned) ks (.deleting valid all pruned) ks
  | scan {valid all pruned batch : List (List Char)} {id : List Char}
      {ks : KeyStore (List UInt8)} (hid : id ∉ valid) (hbatch : ∀ k ∈ batch, id ++ [':'] <+: k) :
      Moves (.deleting valid (id :: all) pruned) ks (.writing valid id batch all pruned) ks
  | write {valid all pruned batch : List (List Char)} {id : List Char}
      {ks : KeyStore (List UInt8)} :
      Moves (.writing valid id batch all pruned) ks (.deleting valid all (pruned ++ [id]))
        (ks.deleteBatch batch)
  | abandon {valid all pruned batch : List (List Char)} {id : List Char}
      {ks : KeyStore (List UInt8)} :
      Moves (.writing valid id batch all pruned) ks (.deleting valid all pruned) ks

/-- Every key of a batch that is to be written is one of its dialogue. -/
def PrunePoint.BatchOf : PrunePoint → Prop
  | .writing _ id batch _ _ => ∀ k ∈ batch, id ++ [':'] <+: k
  | _ => True

namespace PrunePoint

variable {p p' : PrunePoint} {ks ks' : KeyStore (List UInt8)}

theorem Moves.batchOf (hm : Moves p ks p' ks') : p'.BatchOf := by
  cases hm with
  | scan _ hbatch => exact hbatch
  | _ => exact trivial

/-- Only listing the store dooms a dialogue. -/
theorem Moves.dooms (hm : Moves p ks p' ks') (hd : p'.Dooms t) :
    p.Dooms t ∨ ∃ valid, p = .listing valid ∧ t ∈ ks.listDialogues.map (·.1) ∧ t ∉ valid := by
  cases hm with
  | list => exact .inr ⟨_, rfl, hd⟩
  | refuse => exact hd.elim
  | finish => exact hd.elim
  | pass => exact .inl ⟨List.mem_cons_of_mem _ hd.1, hd.2⟩
  | scan hid _ =>
      rcases hd with rfl | hd
      · exact .inl ⟨List.mem_cons_self, hid⟩
      · exact .inl ⟨List.mem_cons_of_mem _ hd.1, hd.2⟩
  | write => exact .inl (.inr hd)
  | abandon => exact .inl (.inr hd)

/-- A packet of a dialogue that is not doomed stays. -/
theorem Moves.kept (hm : Moves p ks p' ks') (hbatch : p.BatchOf) {id : DialogueId} {n : Nat}
    (hd : ¬ p.Dooms id.text) : ks'.db.get? (makeKey id n) = ks.db.get? (makeKey id n) := by
  cases hm with
  | write =>
      rw [get?_deleteBatch, if_neg]
      exact fun hmem => hd (.inl (eq_of_prefix_makeKey (hbatch _ hmem)).symm)
  | _ => rfl

end PrunePoint

namespace PruneWorld

variable {w w' : PruneWorld} {i : Nat} {p : PrunePoint}

theorem stepPrune_moves (h : w.stepPrune i p = some w') :
    ∃ p' ks', p.Moves w.store p' ks' ∧
      w' = { w with store := ks', prunes := w.prunes.set i p' } := by
  cases p with
  | listing valid =>
      cases h
      exact ⟨_, _, .list, rfl⟩
  | deleting valid all pruned =>
      cases all with
      | nil =>
          cases h
          exact ⟨_, _, .finish, rfl⟩
      | cons id all =>
          rw [stepPrune] at h
          split at h
          · cases h
            exact ⟨_, _, .pass, rfl⟩
          · rename_i hid
            split at h
            · cases h
              exact ⟨_, _, .pass, rfl⟩
            · rename_i batch hbatch
              cases h
              exact ⟨_, _, .scan hid (prefix_of_mem_rangeBatch hbatch), rfl⟩
  | writing valid id batch all pruned =>
      cases h
      exact ⟨_, _, .write, rfl⟩
  | answered pruned => cases h
  | failed error => cases h

theorem failPrune_moves {error : String} (h : w.failPrune i error p = some w') :
    ∃ p' ks', p.Moves w.store p' ks' ∧ (∀ t, p'.Dooms t → p.Dooms t) ∧
      w' = { w with store := ks', prunes := w.prunes.set i p' } := by
  cases p with
  | listing valid =>
      cases h
      exact ⟨_, _, .refuse, fun _ hd => hd.elim, rfl⟩
  | deleting valid all pruned =>
      cases all with
      | nil => cases h
      | cons id all =>
          rw [failPrune] at h
          split at h
          · cases h
          · cases h
            exact ⟨_, _, .pass, fun _ hd => ⟨List.mem_cons_of_mem _ hd.1, hd.2⟩, rfl⟩
  | writing valid id batch all pruned =>
      cases h
      exact ⟨_, _, .abandon, fun _ => .inr, rfl⟩
  | answered pruned => cases h
  | failed error => cases h

/-! ## Runs in which nobody comes in between -/

/-- Whether a step leaves live dialogues alone: no user is registered whose dialogue a prune is
about to delete, and the store is not listed when a user has come in between who already has
packets in it. -/
def Spares (hash : String → DialogueId) (w : PruneWorld) : PruneLabel → Prop
  | .reg username =>
      ∀ p ∈ w.prunes, ∀ u ∈ username :: w.users, ¬ p.Dooms (makeDialogueId hash username u).text
  | .run i => ∀ p ∈ w.prunes[i]?, p.MayRun hash w.users w.store
  | _ => True

instance (w : PruneWorld) (l : PruneLabel) : Decidable (Spares hash w l) := by
  cases l <;> unfold Spares <;> infer_instance

/-- **The invariant.** No prune is about to delete a live dialogue. -/
structure Sound (hash : String → DialogueId) (w : PruneWorld) : Prop where
  batchOf : ∀ p ∈ w.prunes, p.BatchOf
  spared : ∀ p ∈ w.prunes, ∀ t, IsDialogue hash w.users t → ¬ p.Dooms t

theorem sound_set {ks ks' : KeyStore (List UInt8)} {p p' : PrunePoint} (hs : Sound hash w)
    (hm : p.Moves ks p' ks') (hd : ∀ t, IsDialogue hash w.users t → p'.Dooms t → p.Dooms t)
    (hp : w.prunes[i]? = some p) :
    Sound hash { w with store := ks', prunes := w.prunes.set i p' } where
  batchOf q hq := by
    rcases List.mem_or_eq_of_mem_set hq with hq | rfl
    · exact hs.batchOf q hq
    · exact hm.batchOf
  spared q hq t ht := by
    rcases List.mem_or_eq_of_mem_set hq with hq | rfl
    · exact hs.spared q hq t ht
    · exact fun hdoom => hs.spared p (List.mem_of_getElem? hp) t ht (hd t ht hdoom)

theorem sound_step {l : PruneLabel} (hs : Sound hash w) (hl : Spares hash w l)
    (h : w.step hash l = some w') : Sound hash w' := by
  cases l with
  | reg username =>
      rw [step] at h
      obtain ⟨-, h⟩ := Option.ite_none_left_eq_some.mp h
      cases h
      refine ⟨hs.batchOf, fun p hp t ht => ?_⟩
      rcases isDialogue_reg ht with ht | ⟨u, hu, rfl⟩
      · exact hs.spared p hp t ht
      · exact hl p hp u hu
  | delete username =>
      cases h
      exact ⟨hs.batchOf, fun p hp t ht =>
        hs.spared p hp t (IsDialogue.mono ht (fun u hu => List.mem_of_mem_filter hu))⟩
  | accept sender recver seq payload =>
      rw [step] at h
      split at h
      · obtain ⟨-, h⟩ := Option.ite_none_right_eq_some.mp h
        cases h
        exact ⟨hs.batchOf, hs.spared⟩
      · cases h
  | write j =>
      obtain ⟨p, -, rfl⟩ := Option.map_eq_some_iff.mp h
      exact ⟨hs.batchOf, hs.spared⟩
  | other key value =>
      rw [step] at h
      split at h
      · cases h
        exact ⟨hs.batchOf, hs.spared⟩
      · cases h
  | prune =>
      cases h
      constructor
      · intro p hp
        rcases List.mem_append.mp hp with hp | hp
        · exact hs.batchOf p hp
        · rw [List.mem_singleton.mp hp]
          exact trivial
      · intro p hp t ht
        rcases List.mem_append.mp hp with hp | hp
        · exact hs.spared p hp t ht
        · rw [List.mem_singleton.mp hp]
          exact id
  | run i =>
      obtain ⟨p, hp, h⟩ := Option.bind_eq_some_iff.mp h
      obtain ⟨p', ks', hm, rfl⟩ := stepPrune_moves h
      refine sound_set hs hm (fun t ht hd => ?_) hp
      rcases hm.dooms hd with hd | ⟨valid, rfl, hmem, hvalid⟩
      · exact hd
      · obtain ⟨e, he, rfl⟩ := List.mem_map.mp hmem
        exact absurd (hl _ hp e he ht) hvalid
  | storeError i error =>
      obtain ⟨p, hp, h⟩ := Option.bind_eq_some_iff.mp h
      obtain ⟨p', ks', hm, hd, rfl⟩ := failPrune_moves h
      exact sound_set hs hm (fun t _ => hd t) hp

theorem sound_of_reach {store : KeyStore (List UInt8)}
    (hr : Lts.Reach (step hash) (Spares hash) (init users store) w) : Sound hash w := by
  refine hr.invariant ⟨?_, ?_⟩ (fun _ _ _ _ hs hl h => sound_step hs hl h)
  · exact fun _ hp => absurd hp List.not_mem_nil
  · exact fun _ hp => absurd hp List.not_mem_nil

/-- A push takes the place of no packet. -/
theorem push_kept {ks : KeyStore (List UInt8)} {id id' : DialogueId} {m n : Nat} (hm : m < u64Size)
    {data v : List UInt8} (hv : ks.db.get? (makeKey id n) = some v) :
    ((ks.push id' m hm data).toOption.getD ks).db.get? (makeKey id n) = some v := by
  unfold push
  cases hk : ks.db.get? (makeKey id' m) with
  | some _ => exact hv
  | none =>
      refine (OrdMap.get?_put_of_ne _ _ (fun heq => ?_)).trans hv
      rw [heq] at hv
      rw [show text (.packet id' m) = makeKey id' m from rfl, hk] at hv
      cases hv

/-- **A step leaves the packets of live dialogues alone.** -/
theorem kept_step {l : PruneLabel} (hs : Sound hash w) (h : w.step hash l = some w')
    {id : DialogueId} (hid : IsDialogue hash w.users id.text) {n : Nat} {v : List UInt8}
    (hv : w.store.db.get? (makeKey id n) = some v) :
    w'.store.db.get? (makeKey id n) = some v := by
  cases l with
  | reg username =>
      rw [step] at h
      obtain ⟨-, h⟩ := Option.ite_none_left_eq_some.mp h
      cases h
      exact hv
  | delete username =>
      cases h
      exact hv
  | accept sender recver seq payload =>
      rw [step] at h
      split at h
      · obtain ⟨-, h⟩ := Option.ite_none_right_eq_some.mp h
        cases h
        exact hv
      · cases h
  | write j =>
      obtain ⟨p, -, rfl⟩ := Option.map_eq_some_iff.mp h
      exact push_kept p.bounded hv
  | other key value =>
      rw [step] at h
      split at h
      · rename_i hkey
        cases h
        refine (OrdMap.get?_put_of_ne _ _ (fun heq => ?_)).trans hv
        obtain ⟨m, rfl⟩ := packet_of_keyPrefix (heq ▸ keyPrefix_makeKey id n)
        cases hkey.1
      · cases h
  | prune =>
      cases h
      exact hv
  | run i =>
      obtain ⟨p, hp, h⟩ := Option.bind_eq_some_iff.mp h
      obtain ⟨p', ks', hm, rfl⟩ := stepPrune_moves h
      have hmem := List.mem_of_getElem? hp
      exact (hm.kept (hs.batchOf p hmem) (hs.spared p hmem _ hid)).trans hv
  | storeError i error =>
      obtain ⟨p, hp, h⟩ := Option.bind_eq_some_iff.mp h
      obtain ⟨p', ks', hm, -, rfl⟩ := failPrune_moves h
      have hmem := List.mem_of_getElem? hp
      exact (hm.kept (hs.batchOf p hmem) (hs.spared p hmem _ hid)).trans hv

/-! ## A prune alone -/

/-- What the store is when the doomed dialogues were deleted. -/
structure Pruned (doomed : List Char → Prop) (ks ks' : KeyStore (List UInt8)) : Prop where
  gone : ∀ (id : DialogueId) n, doomed id.text → 1 ≤ n → ks'.db.get? (makeKey id n) = none
  kept : ∀ k, (∀ id n, k = makeKey (DialogueId.text id) n → 1 ≤ n → ¬ doomed id.text) →
    ks'.db.get? k = ks.db.get? k

theorem Pruned.trans {d d' : List Char → Prop} {ks ks₁ ks₂ : KeyStore (List UInt8)}
    (h : Pruned d ks ks₁) (h' : Pruned d' ks₁ ks₂) : Pruned (fun t => d t ∨ d' t) ks ks₂ where
  gone id n hd hn := by
    by_cases hd' : d' id.text
    · exact h'.gone id n hd' hn
    · rw [h'.kept, h.gone id n (hd.resolve_right hd') hn]
      intro id' m heq _
      obtain ⟨rfl, -⟩ := makeKey_inj.mp heq
      exact hd'
  kept k hk := by
    rw [h'.kept k (fun id n heq hn hd => hk id n heq hn (.inr hd)),
      h.kept k (fun id n heq hn hd => hk id n heq hn (.inl hd))]

theorem Pruned.congr {d d' : List Char → Prop} {ks ks' : KeyStore (List UInt8)}
    (h : Pruned d ks ks') (hd : ∀ id : DialogueId, d id.text ↔ d' id.text) : Pruned d' ks ks' where
  gone id n hid := h.gone id n ((hd id).mpr hid)
  kept k hk := h.kept k (fun id n heq hn hid => hk id n heq hn ((hd id).mp hid))

/-- Writing the batch of a dialogue deletes that one. -/
theorem pruned_deleteBatch {ks : KeyStore (List UInt8)} {id : DialogueId}
    {batch : List (List Char)}
    (h : ∀ k, k ∈ batch ↔
      k ∈ ks.db.keys ∧ ∃ n, max 0 1 ≤ n ∧ n ≤ u64Size - 1 ∧ k = makeKey id n) :
    Pruned (· = id.text) ks (ks.deleteBatch batch) where
  gone id' n hid hn := by
    obtain rfl := DialogueId.ext_text hid
    rw [get?_deleteBatch]
    split
    · rfl
    · rename_i hmem
      refine OrdMap.get?_eq_none.mpr (fun hk => hmem ?_)
      exact (h _).mpr ⟨hk, n, hn, Nat.le_sub_one_of_lt (number_lt hk), rfl⟩
  kept k hk := by
    rw [get?_deleteBatch, if_neg]
    intro hmem
    obtain ⟨-, n, hn, -, rfl⟩ := (h k).mp hmem
    exact hk id n rfl hn rfl

/-- The one step of a prune that is served alone. -/
def alone (hash : String → DialogueId) (i : Nat) (w : PruneWorld) : Option PruneWorld :=
  w.step hash (.run i)

/-- The prune has answered, and of everything else only the store has changed. -/
def Answered (i : Nat) (w w' : PruneWorld) : Prop :=
  w'.users = w.users ∧ w'.pushes = w.pushes ∧ ∃ pruned, w'.prunes[i]? = some (.answered pruned)

theorem alone_eq (hp : w.prunes[i]? = some p) : alone hash i w = w.stepPrune i p := by
  rw [alone, show w.step hash (.run i) = (w.prunes[i]?).bind (w.stepPrune i) from rfl, hp,
    Option.bind_some]

theorem prunes_set (hp : w.prunes[i]? = some p) (ks : KeyStore (List UInt8)) (p' : PrunePoint) :
    ({ w with store := ks }.setPrune i p').prunes[i]? = some p' :=
  List.getElem?_set_self (List.getElem?_eq_some_iff.mp hp).1

/-- The loop over the dialogues that are left. -/
theorem deleting_leads {valid all pruned : List (List Char)}
    (hp : w.prunes[i]? = some (.deleting valid all pruned))
    (hall : ∀ t ∈ all, ∃ id : DialogueId, t = id.text) :
    Lts.Leads (alone hash i) (fun w' => Answered i w w' ∧
      Pruned (fun t => t ∈ all ∧ t ∉ valid) w.store w'.store) w := by
  induction all generalizing w pruned with
  | nil =>
      refine .step (alone_eq hp) (.here ⟨⟨rfl, rfl, pruned, prunes_set hp w.store _⟩, ?_⟩)
      exact ⟨fun id n hd => absurd hd.1 List.not_mem_nil, fun _ _ => rfl⟩
  | cons t all ih =>
      have hrest : ∀ t ∈ all, ∃ id : DialogueId, t = id.text :=
        fun t ht => hall t (List.mem_cons_of_mem _ ht)
      obtain ⟨id, rfl⟩ := hall t List.mem_cons_self
      by_cases hid : id.text ∈ valid
      · have hstep : alone hash i w = some (w.setPrune i (.deleting valid all pruned)) := by
          rw [alone_eq hp, stepPrune, if_pos hid]
        refine .step hstep ((ih (prunes_set hp w.store _) hrest).mono ?_)
        rintro w' ⟨ha, hpr⟩
        refine ⟨ha, hpr.congr (fun id' => and_congr_left (fun hn => ?_))⟩
        rw [List.mem_cons, or_iff_right]
        exact fun heq => hn (heq ▸ hid)
      · obtain ⟨batch, hbatch, hmem⟩ :=
          rangeBatch_eq w.store id 0 (u64Size - 1) (by decide) (by simp)
        have hscan : alone hash i w
            = some (w.setPrune i (.writing valid id.text batch all pruned)) := by
          rw [alone_eq hp, stepPrune, if_neg hid, hbatch]
        have hp₁ := prunes_set hp w.store (.writing valid id.text batch all pruned)
        refine .step hscan (.step (alone_eq hp₁) ?_)
        refine (ih (prunes_set hp₁ _ _) hrest).mono ?_
        rintro w' ⟨ha, hpr⟩
        refine ⟨ha, ((pruned_deleteBatch hmem).trans hpr).congr (fun id' => ?_)⟩
        rw [List.mem_cons]
        constructor
        · rintro (heq | ⟨h, hn⟩)
          · exact ⟨.inl heq, heq ▸ hid⟩
          · exact ⟨.inr h, hn⟩
        · rintro ⟨heq | h, hn⟩
          · exact .inl heq
          · exact .inr ⟨h, hn⟩

/-- **Alone, a prune deletes every packet of every other dialogue from number `1` on.** -/
theorem prune_leads (hash : String → DialogueId) (w : PruneWorld) :
    ∃ w₀, w.step hash .prune = some w₀ ∧
      Lts.Leads (alone hash w.prunes.length) (fun w' => Answered w.prunes.length w w' ∧
        Pruned (fun t => ¬ IsDialogue hash w.users t) w.store w'.store) w₀ := by
  refine ⟨_, rfl, ?_⟩
  have hp : ({ w with prunes := w.prunes ++ [.listing (validDialogueIds hash w.users)] } :
      PruneWorld).prunes[w.prunes.length]? = some (.listing (validDialogueIds hash w.users)) :=
    List.getElem?_concat_length
  refine .step (alone_eq hp) ((deleting_leads (prunes_set hp w.store _) ?_).mono ?_)
  · intro t ht
    obtain ⟨id, n, rfl, -⟩ := mem_listDialogues.mp ht
    exact ⟨id, rfl⟩
  · rintro w' ⟨ha, hgone, hkept⟩
    refine ⟨ha, fun id n hd hn => ?_, fun k hk => hkept k (fun id n heq hn hd => ?_)⟩
    · by_cases hmem : id.text ∈ w.store.listDialogues.map (·.1)
      · exact hgone id n ⟨hmem, fun hv => hd (mem_validDialogueIds.mp hv)⟩ hn
      · rw [hkept _ (fun id' m heq _ hd' => ?_)]
        · exact OrdMap.get?_eq_none.mpr (fun hk =>
            hmem (mem_listDialogues.mpr ⟨id, n, rfl, hk⟩))
        · obtain ⟨rfl, -⟩ := makeKey_inj.mp heq
          exact hmem hd'.1
    · exact hk id n heq hn (fun hlive => hd.2 (mem_validDialogueIds.mpr hlive))

/-- No other dialogue has a packet with number `0`. -/
def NoZero (hash : String → DialogueId) (users : List String) (ks : KeyStore (List UInt8)) :
    Prop :=
  ∀ id : DialogueId, ¬ IsDialogue hash users id.text → ks.db.get? (makeKey id 0) = none

section Pruned

variable {ks ks' : KeyStore (List UInt8)}
  (h : Pruned (fun t => ¬ IsDialogue hash users t) ks ks')

include h

theorem Pruned.none_iff : (∀ (id : DialogueId) n, ¬ IsDialogue hash users id.text →
    ks'.db.get? (makeKey id n) = none) ↔ NoZero hash users ks := by
  have hzero : ∀ id : DialogueId, ks'.db.get? (makeKey id 0) = ks.db.get? (makeKey id 0) := by
    refine fun id => h.kept _ (fun id' n heq hn _ => ?_)
    obtain ⟨-, rfl⟩ := makeKey_inj.mp heq
    exact absurd hn (by decide)
  constructor
  · exact fun hnone id hid => (hzero id).symm.trans (hnone id 0 hid)
  · intro hno id n hid
    rcases Nat.eq_zero_or_pos n with rfl | hn
    · exact (hzero id).trans (hno id hid)
    · exact h.gone id n hid hn

theorem Pruned.listed_iff :
    (∀ e ∈ ks'.listDialogues, IsDialogue hash users e.1) ↔ NoZero hash users ks := by
  rw [← h.none_iff]
  constructor
  · intro hlist id n hid
    refine OrdMap.get?_eq_none.mpr (fun hk => hid ?_)
    obtain ⟨e, he, heq⟩ := List.mem_map.mp (mem_listDialogues.mpr ⟨id, n, rfl, hk⟩)
    exact heq ▸ hlist e he
  · intro hnone e he
    obtain ⟨id, n, heq, hk⟩ := mem_listDialogues.mp (List.mem_map_of_mem he)
    refine Decidable.byContradiction (fun hid => ?_)
    rw [heq] at hid
    exact OrdMap.get?_eq_none.mp (hnone id n hid) hk

end Pruned

/-- **Pruning spares live dialogues and leaves no other.** In a run in which nobody whose dialogue
a prune is going to delete comes in between, no step deletes a packet of two registered users.
Alone, a prune changes no key but those of the other dialogues' packets, and leaves no such packet,
and none of these dialogues in the list, exactly when none of them has the number `0`. -/
theorem prune_exact (hash : String → DialogueId) :
    (∀ (users : List String) (store : KeyStore (List UInt8)) (w w' : PruneWorld) (l : PruneLabel),
      Lts.Reach (step hash) (Spares hash) (init users store) w → Spares hash w l →
      w.step hash l = some w' →
      ∀ (id : DialogueId) (n : Nat) (v : List UInt8), IsDialogue hash w.users id.text →
        w.store.db.get? (makeKey id n) = some v → w'.store.db.get? (makeKey id n) = some v) ∧
    ∀ w : PruneWorld, ∃ w₀, w.step hash .prune = some w₀ ∧
      Lts.Leads (alone hash w.prunes.length) (fun w' =>
        Answered w.prunes.length w w' ∧
        (∀ k, (∀ id n, k = makeKey (DialogueId.text id) n → IsDialogue hash w.users id.text) →
          w'.store.db.get? k = w.store.db.get? k) ∧
        ((∀ (id : DialogueId) n, ¬ IsDialogue hash w.users id.text →
          w'.store.db.get? (makeKey id n) = none) ↔ NoZero hash w.users w.store) ∧
        ((∀ e ∈ w'.store.listDialogues, IsDialogue hash w.users e.1) ↔
          NoZero hash w.users w.store)) w₀ := by
  constructor
  · intro users store w w' l hr _ hs id n v hid hv
    exact kept_step (sound_of_reach hr) hs hid hv
  · intro w
    obtain ⟨w₀, hs, hl⟩ := prune_leads hash w
    refine ⟨w₀, hs, hl.mono ?_⟩
    rintro w' ⟨ha, hpr⟩
    refine ⟨ha, fun k hk => hpr.kept k (fun id n heq _ => ?_), hpr.none_iff, hpr.listed_iff⟩
    exact not_not.mpr (hk id n heq)

/-- Alice and Bob have a dialogue, and so have Alice and Carol, who was deleted. -/
def twoDialogues : KeyStore (List UInt8) :=
  (empty.put (.packet (makeDialogueId binaryHash "alice" "bob") 1) (by decide) [7]).put
    (.packet (makeDialogueId binaryHash "alice" "carol") 1) (by decide) [8]

/-- A prune has the batch of what Alice and Carol had when Dave comes. -/
def sparingTrace : List PruneLabel := [.prune, .run 0, .run 0, .run 0, .reg "dave"]

def sparingWorld : PruneWorld :=
  (Lts.execWhile (step binaryHash) (Spares binaryHash) (init ["alice", "bob"] twoDialogues)
    sparingTrace).getD (init ["alice", "bob"] twoDialogues)

/-- The batch goes, and what Alice and Bob have stays; a second prune then has nothing to do. -/
theorem prune_exact_sparingTrace : ∃ w', sparingWorld.step binaryHash (.run 0) = some w' ∧
    w'.store.db.get? (makeKey (makeDialogueId binaryHash "alice" "bob") 1) = some [7] ∧
    w'.store.db.get? (makeKey (makeDialogueId binaryHash "alice" "carol") 1) = none ∧
    ∃ w₀, w'.step binaryHash .prune = some w₀ ∧
      Lts.Leads (alone binaryHash 1) (fun w'' => w''.store.db.get?
        (makeKey (makeDialogueId binaryHash "alice" "bob") 1) = some [7]) w₀ := by
  have hs : sparingWorld.step binaryHash (.run 0)
      = some ((sparingWorld.step binaryHash (.run 0)).getD sparingWorld) :=
    (Option.getD_of_ne_none (by decide +kernel) _).symm
  have hkept := (prune_exact binaryHash).1 ["alice", "bob"] twoDialogues sparingWorld _ (.run 0)
    (Lts.reach_getD (by decide +kernel)) (by decide +kernel) hs
    (makeDialogueId binaryHash "alice" "bob") 1 [7] (by decide +kernel) (by decide +kernel)
  have hgone : ((sparingWorld.step binaryHash (.run 0)).getD sparingWorld).store.db.get?
      (makeKey (makeDialogueId binaryHash "alice" "carol") 1) = none := by decide +kernel
  have hlive : IsDialogue binaryHash ((sparingWorld.step binaryHash (.run 0)).getD
      sparingWorld).users (makeDialogueId binaryHash "alice" "bob").text := by decide +kernel
  have hlen : ((sparingWorld.step binaryHash (.run 0)).getD sparingWorld).prunes.length = 1 := by
    decide +kernel
  generalize (sparingWorld.step binaryHash (.run 0)).getD sparingWorld = w' at *
  obtain ⟨w₀, h₀, hl⟩ := (prune_exact binaryHash).2 w'
  rw [hlen] at hl
  refine ⟨w', hs, hkept, hgone, w₀, h₀, Lts.Leads.mono hl ?_⟩
  rintro w'' ⟨-, hother, -⟩
  refine (hother _ (fun id n heq => ?_)).trans hkept
  exact (makeKey_inj.mp heq).1 ▸ hlive

/-- Bob is registered after the users were read, and has a packet before the store is listed. -/
def lostTrace : List PruneLabel :=
  [.prune, .reg "bob", .accept "alice" "bob" 1 [7], .write 0, .run 0, .run 0]

def lostWorld : PruneWorld :=
  (Lts.exec (step binaryHash) (init ["alice"] empty) lostTrace).getD (init ["alice"] empty)

/-- Alice's dialogue with Bob, who was deleted, of one packet with number `0`. -/
def zeroStore : KeyStore (List UInt8) :=
  empty.put (.packet (makeDialogueId binaryHash "alice" "bob") 0) (by decide) [7]

/-- The prune deletes what Alice has from Bob, both of them registered. Another one, alone, answers
that it has deleted what Alice had with a user who is gone, and leaves it. -/
theorem live_pruned :
    (∃ w', Lts.exec (step binaryHash) (init ["alice"] empty) lostTrace = some lostWorld ∧
      lostWorld.step binaryHash (.run 0) = some w' ∧
      IsDialogue binaryHash lostWorld.users (makeDialogueId binaryHash "alice" "bob").text ∧
      lostWorld.store.db.get? (makeKey (makeDialogueId binaryHash "alice" "bob") 1) = some [7] ∧
      w'.store.db.get? (makeKey (makeDialogueId binaryHash "alice" "bob") 1) = none) ∧
    ∃ w', Lts.exec (step binaryHash) (init ["alice"] zeroStore)
        [.prune, .run 0, .run 0, .run 0, .run 0] = some w' ∧
      w'.prunes = [.answered [(makeDialogueId binaryHash "alice" "bob").text]] ∧
      ¬ IsDialogue binaryHash w'.users (makeDialogueId binaryHash "alice" "bob").text ∧
      w'.store.db.get? (makeKey (makeDialogueId binaryHash "alice" "bob") 0) = some [7] := by
  constructor
  · exact ⟨(lostWorld.step binaryHash (.run 0)).getD lostWorld, Lts.exec_getD (by decide +kernel),
      (Option.getD_of_ne_none (by decide +kernel) _).symm, by decide +kernel, by decide +kernel,
      by decide +kernel⟩
  · exact ⟨_, Lts.exec_getD (by decide +kernel), by decide +kernel, by decide +kernel,
      by decide +kernel⟩

end PruneWorld

end Paranoia
