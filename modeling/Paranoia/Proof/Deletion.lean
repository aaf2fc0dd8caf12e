import Paranoia.Server.Signing

/-!
# Who has authorised a deletion

`/determinate` verifies a signature over the two names and the two bounds glued together, which
is the text `/pull` and `/map` verify as well, and which other operations and other bounds can
have too: what a participant signs may be read as a deletion nobody asked for. `deletionReadings`
lists what a text signed by an account can delete.

Where every reading of what is signed is the deletion that was signed, or one that was signed
before, the server deletes nothing a participant has not signed (`deletion_authorised`); where
some other reading exists, the next request may carry it out (`sign_exposes`).
-/

namespace Paranoia

theorem DialogueKey.new_comm (a b : String) : DialogueKey.new a b = DialogueKey.new b a := by
  unfold DialogueKey.new
  by_cases hab : a < b
  · rw [if_pos hab, if_neg (String.lt_asymm hab)]
  · by_cases hba : b < a
    · rw [if_neg hab, if_pos hba]
    · rw [if_neg hab, if_neg hba, String.le_antisymm hba hab]

theorem DialogueKey.new_eq {a b c d : String} (h : DialogueKey.new a b = DialogueKey.new c d) :
    a = c ∧ b = d ∨ a = d ∧ b = c := by
  unfold DialogueKey.new at h
  split at h <;> split at h <;> simp_all

namespace DeterminateRequest

/-- The bounds are of the right type and make up a range. -/
def Valid (req : DeterminateRequest) : Prop :=
  req.signed.Bounded ∧ req.toSeq ≠ 0 ∧ (req.fromSeq = 0 ∨ req.fromSeq ≤ req.toSeq)

instance : DecidablePred Valid := fun req => by
  unfold Valid
  infer_instance

/-- **A participant of the dialogue signed a deletion of exactly these bounds.** -/
def Authorised (req : DeterminateRequest) (signed : List (String × SignedRequest)) : Prop :=
  ∃ p ∈ signed, ∃ req' ∈ p.2.deletion?, (p.1 = req.sender ∨ p.1 = req.recver)
    ∧ req'.dialogue = req.dialogue ∧ req'.fromSeq = req.fromSeq ∧ req'.toSeq = req.toSeq

instance (req : DeterminateRequest) (signed : List (String × SignedRequest)) :
    Decidable (req.Authorised signed) := by
  unfold Authorised
  infer_instance

variable {req : DeterminateRequest} {signed signed' : List (String × SignedRequest)}

theorem Authorised.mono (hsub : ∀ p ∈ signed, p ∈ signed') (h : req.Authorised signed) :
    req.Authorised signed' := by
  obtain ⟨p, hp, hrest⟩ := h
  exact ⟨p, hsub p hp, hrest⟩

theorem authorised_append {username : String} {r : SignedRequest} :
    req.Authorised (signed ++ [(username, r)]) ↔
      req.Authorised signed ∨ req.Authorised [(username, r)] := by
  unfold Authorised
  constructor
  · rintro ⟨p, hp, hrest⟩
    rcases List.mem_append.mp hp with hp | hp
    · exact Or.inl ⟨p, hp, hrest⟩
    · exact Or.inr ⟨p, hp, hrest⟩
  · rintro (⟨p, hp, hrest⟩ | ⟨p, hp, hrest⟩)
    · exact ⟨p, List.mem_append_left _ hp, hrest⟩
    · exact ⟨p, List.mem_append_right _ hp, hrest⟩

theorem deletion?_eq_some {r : SignedRequest} : r.deletion? = some req ↔ r = req.signed := by
  unfold SignedRequest.deletion? signed
  cases req
  cases r <;> simp

/-- What authorises a deletion is the deletion itself, its names in either order. -/
theorem authorised_singleton {username : String} {r : SignedRequest} :
    req.Authorised [(username, r)] ↔
      (username = req.sender ∨ username = req.recver) ∧
        (r = req.signed ∨ r = req.swapped.signed) := by
  constructor
  · rintro ⟨p, hp, req', hdel, huser, hdlg, hfrom, hto⟩
    obtain rfl := List.mem_singleton.mp hp
    obtain rfl := deletion?_eq_some.mp hdel
    refine ⟨huser, ?_⟩
    unfold dialogue at hdlg
    unfold signed swapped
    rcases DialogueKey.new_eq hdlg with ⟨h₁, h₂⟩ | ⟨h₁, h₂⟩
    · exact Or.inl (by rw [h₁, h₂, hfrom, hto])
    · exact Or.inr (by rw [h₁, h₂, hfrom, hto])
  · rintro ⟨huser, rfl | rfl⟩
    · exact ⟨_, List.mem_singleton_self _, req, rfl, huser, rfl, rfl, rfl⟩
    · exact ⟨_, List.mem_singleton_self _, req.swapped, rfl, huser, DialogueKey.new_comm _ _,
        rfl, rfl⟩

end DeterminateRequest

/-! ## Reading a text as a deletion -/

/-- The deletions between registered accounts that the signature of `username` over this text
is good for. -/
def deletionReadings (users : List String) (username : String) (text : List Char) :
    List DeterminateRequest :=
  users.flatMap (fun sender => users.flatMap (fun recver =>
    match text.dropPrefix? (sender.toList ++ recver.toList) with
    | none => []
    | some bounds => (Glued.splits bounds).filterMap (fun (first, second) => do
        let fromSeq ← Decimal.read? first
        let toSeq ← Decimal.read? second
        let req : DeterminateRequest := ⟨sender, recver, fromSeq, toSeq⟩
        if (username = sender ∨ username = recver) ∧ req.Valid then some req else none)))

theorem text_signed (req : DeterminateRequest) : req.signed.text =
    req.sender.toList ++ (req.recver.toList ++
      (Decimal.numeral req.fromSeq ++ Decimal.numeral req.toSeq)) := by
  show [] ++ List.intercalate [] [_, _, _, _] = _
  simp only [List.nil_append, List.intercalate_cons_cons, List.intercalate_singleton,
    List.append_nil]

theorem mem_deletionReadings {users : List String} {username : String} {text : List Char}
    {req : DeterminateRequest} :
    req ∈ deletionReadings users username text ↔
      req.sender ∈ users ∧ req.recver ∈ users ∧
        (username = req.sender ∨ username = req.recver) ∧ req.Valid ∧ req.signed.text = text := by
  unfold deletionReadings
  simp only [List.mem_flatMap]
  constructor
  · rintro ⟨sender, hs, recver, hr, h⟩
    split at h
    · cases h
    · rename_i bounds hdrop
      obtain ⟨names, rfl, hnames⟩ := List.dropPrefix?_eq_some_iff.mp hdrop
      obtain rfl := beq_iff_eq.mp hnames
      obtain ⟨⟨first, second⟩, hcut, hreq⟩ := List.mem_filterMap.mp h
      simp only [Option.bind_eq_bind, Option.bind_eq_some_iff] at hreq
      obtain ⟨fromSeq, hfrom, toSeq, hto, hreq⟩ := hreq
      rw [Decimal.read?_eq_some] at hfrom hto
      split at hreq
      · rename_i hcond
        cases hreq
        refine ⟨hs, hr, hcond.1, hcond.2, ?_⟩
        rw [text_signed, ← Glued.mem_splits.mp hcut, hfrom, hto, List.append_assoc]
      · cases hreq
  · rintro ⟨hs, hr, huser, hvalid, rfl⟩
    refine ⟨req.sender, hs, req.recver, hr, ?_⟩
    have hdrop : req.signed.text.dropPrefix? (req.sender.toList ++ req.recver.toList) =
        some (Decimal.numeral req.fromSeq ++ Decimal.numeral req.toSeq) := by
      rw [text_signed, ← List.append_assoc]
      exact List.dropPrefix?_append_of_beq _ (beq_self_eq_true _)
    rw [hdrop]
    refine List.mem_filterMap.mpr ⟨(Decimal.numeral req.fromSeq, Decimal.numeral req.toSeq),
      Glued.mem_splits.mpr rfl, ?_⟩
    simp [Decimal.read?_eq_some.mpr rfl, huser, hvalid]

/-- **What `/determinate` accepts** is a reading of what was signed. -/
theorem refuseDeterminate_eq_none {users : List String} {req : DeterminateRequest}
    {sig : Signature} (hb : req.signed.Bounded) :
    refuseDeterminate users req (some sig) = none ↔
      req ∈ deletionReadings users sig.signer sig.text := by
  have hsig : ∀ username, req.signed.unsigned username (some sig) = false ↔
      sig.signer = username ∧ req.signed.text = sig.text := by
    intro username
    rw [SignedRequest.unsigned_eq_false, Option.some.injEq]
    cases sig
    simp only [Signature.mk.injEq, eq_comm]
  rw [refuseDeterminate, refusal_eq_none, mem_deletionReadings]
  simp only [List.forall_mem_cons, Option.isNone_some, decide_eq_false_iff_not, Bool.not_eq_false',
    Bool.and_eq_true, List.contains_iff_mem, Bool.and_eq_false_iff, hsig, List.not_mem_nil,
    false_implies, implies_true, and_true, true_and, DeterminateRequest.Valid, hb]
  constructor
  · rintro ⟨hto, hrange, ⟨hs, hr⟩, hsigned⟩
    have hvalid : req.fromSeq = 0 ∨ req.fromSeq ≤ req.toSeq := by omega
    rcases hsigned with ⟨huser, htext⟩ | ⟨huser, htext⟩
    · exact ⟨hs, hr, Or.inl huser, ⟨hto, hvalid⟩, htext⟩
    · exact ⟨hs, hr, Or.inr huser, ⟨hto, hvalid⟩, htext⟩
  · rintro ⟨hs, hr, huser, ⟨hto, hvalid⟩, htext⟩
    refine ⟨hto, by omega, ⟨hs, hr⟩, ?_⟩
    rcases huser with huser | huser
    · exact Or.inl ⟨huser, htext⟩
    · exact Or.inr ⟨huser, htext⟩

/-- A request that is not refused is carried out. -/
theorem doDeterminate_success {π : Type} {srv : Server π} {req : DeterminateRequest}
    {sig : Option Signature} :
    (srv.doDeterminate req sig).2.success = true ↔ refuseDeterminate srv.users req sig = none := by
  unfold Server.doDeterminate
  cases h : refuseDeterminate srv.users req sig with
  | some msg => simp [fail]
  | none =>
      have hrange := (refusal_eq_none.mp h) (decide (req.fromSeq ≠ 0 ∧ req.toSeq < req.fromSeq),
        "Invalid range") (by simp)
      have hremove : ¬ (req.toSeq < req.fromSeq ∧ req.fromSeq ≠ 0) := by
        have := of_decide_eq_false hrange
        omega
      simp [PacketStore.removeRange, if_neg hremove, ok]

theorem doDeterminate_users {π : Type} (srv : Server π) (req : DeterminateRequest)
    (sig : Option Signature) : (srv.doDeterminate req sig).1.users = srv.users := by
  unfold Server.doDeterminate
  split
  · rfl
  · split <;> rfl

/-! ## The runs -/

/-- The text of a request that is signed reads as no deletion but the one it asks for, or one a
participant has signed before. -/
def Harmless (users : List String) (signed : List (String × SignedRequest)) (username : String)
    (r : SignedRequest) : Prop :=
  ∀ req ∈ deletionReadings users username r.text,
    r.shape = req.signed.shape ∨ r = req.swapped.signed ∨ req.Authorised signed

instance (users : List String) (signed : List (String × SignedRequest)) (username : String)
    (r : SignedRequest) : Decidable (Harmless users signed username r) := by
  unfold Harmless
  infer_instance

namespace SigningWorld

variable {π : Type} {w w' : SigningWorld π} {l : SigningLabel π}

/-- Every deletion that can be read off what was signed was signed. -/
def Read (users : List String) (signed : List (String × SignedRequest)) : Prop :=
  ∀ p ∈ signed, ∀ req ∈ deletionReadings users p.1 p.2.text, req.Authorised signed

instance (users : List String) (signed : List (String × SignedRequest)) :
    Decidable (Read users signed) := by
  unfold Read
  infer_instance

/-- What is signed is harmless, and stays so when accounts come and go. -/
def HarmlessStep (w : SigningWorld π) : SigningLabel π → Prop
  | .sign username r => Harmless w.server.users w.signed username r
  | .configure users _ => Read users w.signed
  | _ => True

instance (w : SigningWorld π) (l : SigningLabel π) : Decidable (w.HarmlessStep l) := by
  cases l <;> unfold HarmlessStep <;> infer_instance

/-- Every deletion carried out was authorised, and so is every one that could be. -/
structure Guarded (w : SigningWorld π) : Prop where
  read : Read w.server.users w.signed
  removed : ∀ req ∈ w.removed, req.Authorised w.signed

theorem guarded_init (server : Server π) (largeFileMax cap : Nat) :
    (init server largeFileMax cap).Guarded where
  read := by
    intro p hp
    cases hp
  removed := by
    intro req hreq
    cases hreq

/-- Signing something harmless authorises all it can be read as. -/
theorem read_sign {users : List String} {signed : List (String × SignedRequest)}
    {username : String} {r : SignedRequest} (h : Read users signed)
    (hr : Harmless users signed username r) : Read users (signed ++ [(username, r)]) := by
  intro p hp req hreq
  rw [DeterminateRequest.authorised_append]
  rcases List.mem_append.mp hp with hp | hp
  · exact Or.inl (h p hp req hreq)
  · obtain rfl := List.mem_singleton.mp hp
    obtain ⟨-, -, huser, -, htext⟩ := mem_deletionReadings.mp hreq
    rcases hr req hreq with hshape | hswap | hbefore
    · have heq := SignedRequest.eq_of_text hshape htext.symm
      exact Or.inr (DeterminateRequest.authorised_singleton.mpr ⟨huser, Or.inl heq⟩)
    · exact Or.inr (DeterminateRequest.authorised_singleton.mpr ⟨huser, Or.inr hswap⟩)
    · exact Or.inl hbefore

theorem guarded_step (h : w.Guarded) (hok : w.HarmlessStep l) (hs : w.step l = some w') :
    w'.Guarded := by
  cases l with
  | sign username r =>
      cases hs
      refine ⟨read_sign h.read hok, ?_⟩
      intro req hreq
      exact (h.removed req hreq).mono (fun p => List.mem_append_left _)
  | submit r sig =>
      simp only [step] at hs
      split at hs
      · split at hs
        · cases hs
        · cases hs
          exact ⟨h.read, h.removed⟩
        · cases hs
          exact ⟨h.read, h.removed⟩
      · cases hs
  | determinate req sig =>
      simp only [step] at hs
      split at hs
      · rename_i hsub
        cases hs
        refine ⟨?_, ?_⟩
        · show Read (w.server.doDeterminate req sig).1.users w.signed
          rw [doDeterminate_users]
          exact h.read
        · intro req' hreq'
          simp only at hreq'
          split at hreq'
          · rename_i hsuccess
            rcases List.mem_append.mp hreq' with hreq' | hreq'
            · exact h.removed req' hreq'
            · obtain rfl := List.mem_singleton.mp hreq'
              rw [doDeterminate_success] at hsuccess
              cases sig with
              | none => exact absurd hsuccess (by simp [refuseDeterminate, refusal])
              | some sig =>
                  -- the signature is that of something signed, and this is a reading of it
                  obtain ⟨p, hp, rfl⟩ := hsub.2
                  exact h.read p hp req' ((refuseDeterminate_eq_none hsub.1).mp hsuccess)
          · exact h.removed req' hreq'
      · cases hs
  | configure users largeFileMax =>
      cases hs
      exact ⟨hok, h.removed⟩
  | store store =>
      cases hs
      exact ⟨h.read, h.removed⟩

/-- **Deletions are authorised.** While what is signed reads as no other deletion, everything
`/determinate` removes is a range that a participant of the dialogue signed away. -/
theorem deletion_authorised {server : Server π} {largeFileMax cap : Nat}
    (h : Lts.Reach step HarmlessStep (init server largeFileMax cap) w) :
    ∀ req ∈ w.removed, req.Authorised w.signed := by
  have hg : w.Guarded := by
    refine Lts.Reach.invariant (guarded_init server largeFileMax cap) ?_ h
    intro s l s' _ hg hok hs
    exact guarded_step hg hok hs
  exact hg.removed

/-- **The condition is exact.** Once something that is not harmless is signed, the next request
can carry out a deletion no participant has signed. -/
theorem sign_exposes {username : String} {r : SignedRequest}
    (h : ¬ Harmless w.server.users w.signed username r) (hs : w.step (.sign username r) = some w') :
    ∃ req w₂, w'.step (.determinate req (some ⟨username, r.text⟩)) = some w₂ ∧
      req ∈ w₂.removed ∧ ¬ req.Authorised w₂.signed := by
  cases hs
  unfold Harmless at h
  push Not at h
  obtain ⟨req, hreq, hshape, hswap, hbefore⟩ := h
  have hb : req.signed.Bounded := (mem_deletionReadings.mp hreq).2.2.2.1.1
  have hsuccess : (w.server.doDeterminate req (some ⟨username, r.text⟩)).2.success = true :=
    doDeterminate_success.mpr ((refuseDeterminate_eq_none hb).mpr hreq)
  refine ⟨req, _, if_pos ⟨hb, (username, r), List.mem_append_right _ (List.mem_singleton_self _),
    rfl⟩, ?_, ?_⟩
  · show req ∈ if (w.server.doDeterminate req (some ⟨username, r.text⟩)).2.success then
      w.removed ++ [req] else w.removed
    rw [if_pos hsuccess]
    exact List.mem_append_right _ (List.mem_singleton_self _)
  · show ¬ req.Authorised (w.signed ++ [(username, r)])
    rw [DeterminateRequest.authorised_append, DeterminateRequest.authorised_singleton]
    rintro (hauth | ⟨-, heq | heq⟩)
    · exact hbefore hauth
    · exact hshape (by rw [heq])
    · exact hswap heq

/-- A signature for reading a range is good for deleting it. -/
theorem pull_deletes {users : List String} {sender recver : String} {afterSeq toSeq : Nat}
    (hs : sender ∈ users) (hr : recver ∈ users) (hrange : afterSeq < toSeq)
    (hto : toSeq < u64Size) :
    ⟨sender, recver, afterSeq, toSeq⟩ ∈
      deletionReadings users sender (SignedRequest.pull sender recver afterSeq toSeq).text := by
  refine mem_deletionReadings.mpr ⟨hs, hr, Or.inl rfl, ⟨⟨?_, hto⟩, ?_, Or.inr ?_⟩, rfl⟩
  · exact hrange.trans hto
  · exact Nat.ne_of_gt (Nat.zero_lt_of_lt hrange)
  · exact hrange.le

/-- A server with two accounts and no packets. -/
def twoAccounts : Server String := ⟨["alice", "bob"], PacketStore.empty⟩

/-- Alice signs a deletion, and it is carried out. -/
def deletes : List (SigningLabel String) :=
  [.sign "alice" (.determinate "alice" "bob" 1 5),
    .determinate ⟨"alice", "bob", 1, 5⟩
      (some ⟨"alice", (SignedRequest.determinate "alice" "bob" 1 5).text⟩)]

/-- Alice signs a pull, and somebody deletes what she has read. -/
def pulls : List (SigningLabel String) :=
  [.sign "alice" (.pull "alice" "bob" 1 5),
    .determinate ⟨"alice", "bob", 1, 5⟩
      (some ⟨"alice", (SignedRequest.pull "alice" "bob" 1 5).text⟩)]

theorem deletion_authorised_deletes :
    (Lts.execWhile step HarmlessStep (init twoAccounts 0 1) deletes).isSome = true
    ∧ DeterminateRequest.Authorised ⟨"alice", "bob", 1, 5⟩
      ((Lts.execWhile step HarmlessStep (init twoAccounts 0 1) deletes).getD
        (init twoAccounts 0 1)).signed := by
  have hrun : (Lts.execWhile step HarmlessStep (init twoAccounts 0 1)
      deletes).isSome = true := by decide
  exact ⟨hrun, deletion_authorised (Lts.reach_getD hrun) _ (by decide)⟩

/-- The signature of a pull deletes the range, and nobody signed a deletion. -/
theorem deletes_with_a_pull :
    ¬ ∀ w : SigningWorld String, Lts.Reach step (fun _ _ => True) (init twoAccounts 0 1) w →
      ∀ req ∈ w.removed, req.Authorised w.signed := by
  intro h
  have hrun : (Lts.execWhile step (fun _ _ => True) (init twoAccounts 0 1)
      pulls).isSome = true := by decide
  exact absurd (h _ (Lts.reach_getD hrun) ⟨"alice", "bob", 1, 5⟩ (by decide)) (by decide)

end SigningWorld

end Paranoia
