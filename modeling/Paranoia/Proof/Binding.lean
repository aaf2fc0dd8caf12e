import Paranoia.Proof.Deletion

/-!
# What a signature binds

A request that a handler accepts carries a signature of the account it names, over the text
rebuilt from it. That text fixes the operation and the fields only together with the lengths of
the fields (`SignedRequest.eq_of_text`): where a signed text can be cut another way, into a
request the handler accepts as well, the account is taken to have asked for something else.

Where nothing that is signed can be cut another way, what is accepted was signed by the account
it names, and no two accepted requests share a text (`requests_bound`).
-/

namespace Paranoia

namespace Config

variable {cfg : Config} {nonces nonces' : NonceGuard} {r : SignedRequest}
  {sig : Option Signature}

/-- The handler accepts the request with its own signature, if its nonce is fresh. -/
def Accepts (cfg : Config) (r : SignedRequest) : Prop :=
  r.Bounded ∧ (cfg.handle (NonceGuard.new 1) r (some ⟨r.user, r.text⟩)).map Prod.snd = some none

/-! ## What the handlers check -/

/-- What `/blob` accepts passed the checks of its operation and had a fresh nonce. -/
theorem doBlob_eq_none {nonce : String} {rest : Option String} :
    (cfg.doBlob nonces r nonce rest sig).2 = none ↔
      cfg.refuseBlob r sig = none ∧ (nonces.insertFresh nonce).2 = true ∧ rest = none := by
  unfold doBlob
  cases hr : cfg.refuseBlob r sig with
  | some msg => simp
  | none =>
      rcases nonces.insertFresh nonce with ⟨nonces', fresh⟩
      cases fresh <;> simp

/-- A nonce that is fresh somewhere is fresh where none was seen. -/
theorem insertFresh_new {nonce : String} (h : (nonces.insertFresh nonce).2 = true) :
    ((NonceGuard.new 1).insertFresh nonce).2 = true := by
  unfold NonceGuard.insertFresh at *
  by_cases hn : nonce = "" <;> simp_all [NonceGuard.new]

/-- A blob request is accepted with the signature of its user only. -/
theorem doBlob_accepted {nonce : String} {rest : Option String}
    (h : cfg.doBlob nonces r nonce rest sig = (nonces', none)) :
    sig = some ⟨r.user, r.text⟩ ∧
      (cfg.doBlob (NonceGuard.new 1) r nonce rest (some ⟨r.user, r.text⟩)).2 = none := by
  obtain ⟨hblob, hfresh, hrest⟩ := doBlob_eq_none.mp (congrArg Prod.snd h)
  have hsig : sig = some ⟨r.user, r.text⟩ :=
    SignedRequest.unsigned_eq_false.mp (refusal_last (c := (_, _)) hblob rfl)
  refine ⟨hsig, doBlob_eq_none.mpr ⟨?_, insertFresh_new hfresh, hrest⟩⟩
  rw [← hsig]
  exact hblob

/-- A handler that looks at no nonce accepts a request with the signature of its user only, if
the signature is among what it checks. -/
theorem accepted_of_refusal {refuse : Option Signature → Option String} (hb : r.Bounded)
    (hhandle : ∀ nonces sig, cfg.handle nonces r sig = some (nonces, refuse sig))
    (hcheck : refuse sig = none → r.unsigned r.user sig = false)
    (h : cfg.handle nonces r sig = some (nonces', none)) :
    sig = some ⟨r.user, r.text⟩ ∧ cfg.Accepts r := by
  rw [hhandle] at h
  obtain ⟨-, hr⟩ := Prod.mk.inj (Option.some.inj h)
  have hsig := SignedRequest.unsigned_eq_false.mp (hcheck hr)
  refine ⟨hsig, hb, ?_⟩
  rw [hhandle, ← hsig, hr]
  rfl

/-- **What a handler accepts was signed** by the account named, over the request's text. -/
theorem handle_accepted (hb : r.Bounded) (h : cfg.handle nonces r sig = some (nonces', none)) :
    sig = some ⟨r.user, r.text⟩ ∧ cfg.Accepts r := by
  cases r with
  | push sender recver seq payload =>
      exact accepted_of_refusal hb (fun _ _ => rfl)
        (fun hr => refusal_last (c := (_, _)) hr rfl) h
  | notify sender partner seq =>
      exact accepted_of_refusal hb (fun _ _ => rfl)
        (fun hr => refusal_last (c := (_, _)) hr rfl) h
  | notifyMulti sender item items =>
      exact accepted_of_refusal hb (fun _ _ => rfl)
        (fun hr => refusal_last (c := (_, _)) hr rfl) h
  | callSignal sender recver kind tsMs payload =>
      exact accepted_of_refusal hb (fun _ _ => rfl)
        (fun hr => refusal_last (c := (_, _)) hr rfl) h
  | callPoll user nonce longPollMs =>
      exact accepted_of_refusal hb (fun _ _ => rfl)
        (fun hr => refusal_last (c := (_, _)) hr rfl) h
  | blobInfo user nonce =>
      obtain ⟨hsig, hr⟩ := doBlob_accepted (Option.some.inj h)
      exact ⟨hsig, hb, congrArg some hr⟩
  | blobPut user peer fileId chunkIndex totalChunks totalSize nonce payload =>
      obtain ⟨hsig, hr⟩ := doBlob_accepted (Option.some.inj h)
      exact ⟨hsig, hb, congrArg some hr⟩
  | blobGet user peer fileId chunkIndex nonce =>
      obtain ⟨hsig, hr⟩ := doBlob_accepted (Option.some.inj h)
      exact ⟨hsig, hb, congrArg some hr⟩
  | pull | map | determinate | arrivedGet | arrivedPut | other => cases h

end Config

namespace SigningWorld

variable {π : Type} {w w' : SigningWorld π} {l : SigningLabel π}

/-! ## The condition -/

/-- The request was accepted, or would be. -/
def Live (cfg : Config) (signed : List (String × SignedRequest))
    (accepted : List SignedRequest) (r : SignedRequest) : Prop :=
  r ∈ accepted ∨ (r.user, r) ∈ signed ∧ cfg.Accepts r

/-- Whatever a signed text can be taken for on behalf of its signer, the signer has signed. -/
def Owned (cfg : Config) (signed : List (String × SignedRequest)) : Prop :=
  ∀ p ∈ signed, ∀ r, cfg.Accepts r → r.user = p.1 → r.text = p.2.text → (p.1, r) ∈ signed

/-- No two requests that are or would be accepted have one text. -/
def Apart (cfg : Config) (signed : List (String × SignedRequest))
    (accepted : List SignedRequest) : Prop :=
  ∀ r r', Live cfg signed accepted r → Live cfg signed accepted r' → r.text = r'.text → r = r'

/-- The text of `r₀`, which `username` signs, is cut at one place only: by every request of the
signer that would be accepted, unless it was signed before, and by every request signed before
that would be accepted beside `r₀`. -/
structure Unambiguous (cfg : Config) (signed : List (String × SignedRequest))
    (accepted : List SignedRequest) (username : String) (r₀ : SignedRequest) : Prop where
  own : ∀ r, cfg.Accepts r → r.user = username → r.text = r₀.text →
    r.shape = r₀.shape ∨ (username, r) ∈ signed
  apart : cfg.Accepts r₀ → r₀.user = username →
    ∀ r, Live cfg signed accepted r → r.text = r₀.text → r.shape = r₀.shape

/-- What is signed is cut at one place only, and stays so when the configuration changes. -/
def UnambiguousStep (w : SigningWorld π) : SigningLabel π → Prop
  | .sign username r => Unambiguous w.config w.signed w.accepted username r
  | .configure users largeFileMax =>
      Owned ⟨users, largeFileMax⟩ w.signed ∧ Apart ⟨users, largeFileMax⟩ w.signed w.accepted
  | _ => True

/-- What was accepted was signed by the account it names, and no text was accepted as two
requests; both stay so whatever is submitted next. -/
structure Bound (w : SigningWorld π) : Prop where
  owned : Owned w.config w.signed
  apart : Apart w.config w.signed w.accepted
  signed : ∀ r ∈ w.accepted, (r.user, r) ∈ w.signed

/-! ## The runs -/

theorem bound_init (server : Server π) (largeFileMax cap : Nat) :
    (init server largeFileMax cap).Bound where
  owned := by
    intro p hp
    cases hp
  apart := by
    rintro r r' (hr | ⟨hr, -⟩)
    · cases hr
    · cases hr
  signed := by
    intro r hr
    cases hr

theorem owned_sign {cfg : Config} {signed : List (String × SignedRequest)}
    {accepted : List SignedRequest} {username : String} {r₀ : SignedRequest}
    (h : Owned cfg signed) (hok : Unambiguous cfg signed accepted username r₀) :
    Owned cfg (signed ++ [(username, r₀)]) := by
  intro p hp r hacc huser htext
  rcases List.mem_append.mp hp with hp | hp
  · exact List.mem_append_left _ (h p hp r hacc huser htext)
  · obtain rfl := List.mem_singleton.mp hp
    rcases hok.own r hacc huser htext with hshape | hbefore
    · rw [SignedRequest.eq_of_text hshape htext]
      exact List.mem_append_right _ hp
    · exact List.mem_append_left _ hbefore

/-- Signing makes one request live at most. -/
theorem live_sign {cfg : Config} {signed : List (String × SignedRequest)}
    {accepted : List SignedRequest} {username : String} {r r₀ : SignedRequest}
    (h : Live cfg (signed ++ [(username, r₀)]) accepted r) :
    Live cfg signed accepted r ∨ r = r₀ ∧ r₀.user = username ∧ cfg.Accepts r₀ := by
  rcases h with hr | ⟨hr, hacc⟩
  · exact Or.inl (Or.inl hr)
  · rcases List.mem_append.mp hr with hr | hr
    · exact Or.inl (Or.inr ⟨hr, hacc⟩)
    · obtain ⟨huser, rfl⟩ := Prod.mk.inj (List.mem_singleton.mp hr)
      exact Or.inr ⟨rfl, huser, hacc⟩

theorem apart_sign {cfg : Config} {signed : List (String × SignedRequest)}
    {accepted : List SignedRequest} {username : String} {r₀ : SignedRequest}
    (h : Apart cfg signed accepted) (hok : Unambiguous cfg signed accepted username r₀) :
    Apart cfg (signed ++ [(username, r₀)]) accepted := by
  intro r r' hr hr' htext
  rcases live_sign hr with hold | ⟨rfl, huser, hacc⟩
  · rcases live_sign hr' with hold' | ⟨rfl, huser, hacc⟩
    · exact h r r' hold hold' htext
    · exact SignedRequest.eq_of_text (hok.apart hacc huser r hold htext) htext
  · rcases live_sign hr' with hold' | ⟨rfl, -, -⟩
    · exact (SignedRequest.eq_of_text (hok.apart hacc huser r' hold' htext.symm) htext.symm).symm
    · rfl

/-- **A request that is accepted was signed** by the account it names. -/
theorem accepted_signed {r : SignedRequest} {sig : Option Signature} {nonces : NonceGuard}
    (h : w.Bound) (hb : r.Bounded) (hmade : w.Made sig)
    (hacc : w.config.handle w.nonces r sig = some (nonces, none)) :
    (r.user, r) ∈ w.signed ∧ w.config.Accepts r := by
  obtain ⟨rfl, haccepts⟩ := Config.handle_accepted hb hacc
  obtain ⟨p, hp, hsig⟩ := hmade
  obtain ⟨huser, htext⟩ := Signature.mk.inj hsig
  refine ⟨?_, haccepts⟩
  have := h.owned p hp r haccepts huser htext
  rwa [← huser] at this

theorem bound_step (h : w.Bound) (hok : w.UnambiguousStep l) (hs : w.step l = some w') :
    w'.Bound := by
  cases l with
  | sign username r =>
      cases hs
      refine ⟨owned_sign h.owned hok, apart_sign h.apart hok, ?_⟩
      intro r' hr'
      exact List.mem_append_left _ (h.signed r' hr')
  | submit r sig =>
      simp only [step] at hs
      split at hs
      · rename_i hsub
        split at hs
        · cases hs
        · cases hs
          exact ⟨h.owned, h.apart, h.signed⟩
        · rename_i nonces hhandle
          cases hs
          have hsigned := accepted_signed h hsub.1 hsub.2 hhandle
          -- what is accepted now was live before
          have hlive : ∀ r', Live w.config w.signed (w.accepted ++ [r]) r' →
              Live w.config w.signed w.accepted r' := by
            rintro r' (hr' | hr')
            · rcases List.mem_append.mp hr' with hr' | hr'
              · exact Or.inl hr'
              · obtain rfl := List.mem_singleton.mp hr'
                exact Or.inr hsigned
            · exact Or.inr hr'
          refine ⟨h.owned, ?_, ?_⟩
          · intro r₁ r₂ h₁ h₂ htext
            exact h.apart r₁ r₂ (hlive r₁ h₁) (hlive r₂ h₂) htext
          · intro r' hr'
            rcases List.mem_append.mp hr' with hr' | hr'
            · exact h.signed r' hr'
            · obtain rfl := List.mem_singleton.mp hr'
              exact hsigned.1
      · cases hs
  | determinate req sig =>
      simp only [step] at hs
      split at hs
      · cases hs
        have hcfg : (⟨(w.server.doDeterminate req sig).1.users, w.largeFileMax⟩ : Config) =
            w.config := by
          rw [doDeterminate_users]
          rfl
        refine ⟨?_, ?_, h.signed⟩
        · show Owned ⟨(w.server.doDeterminate req sig).1.users, w.largeFileMax⟩ w.signed
          rw [hcfg]
          exact h.owned
        · show Apart ⟨(w.server.doDeterminate req sig).1.users, w.largeFileMax⟩ w.signed w.accepted
          rw [hcfg]
          exact h.apart
      · cases hs
  | configure users largeFileMax =>
      cases hs
      exact ⟨hok.1, hok.2, h.signed⟩
  | store store =>
      cases hs
      exact ⟨h.owned, h.apart, h.signed⟩

/-- **Signatures bind requests.** While no text that is signed can be cut in two ways, every
request that is accepted was signed, operation and fields, by the account it names, and two
accepted requests with one text are the same request. -/
theorem requests_bound {server : Server π} {largeFileMax cap : Nat}
    (h : Lts.Reach step UnambiguousStep (init server largeFileMax cap) w) :
    (∀ r ∈ w.accepted, (r.user, r) ∈ w.signed) ∧
      ∀ r ∈ w.accepted, ∀ r' ∈ w.accepted, r.text = r'.text → r = r' := by
  have hb : w.Bound := by
    refine Lts.Reach.invariant (bound_init server largeFileMax cap) ?_ h
    intro s l s' _ hb hok hs
    exact bound_step hb hok hs
  refine ⟨hb.signed, ?_⟩
  intro r hr r' hr' htext
  exact hb.apart r r' (Or.inl hr) (Or.inl hr') htext

/-- Where what is signed can be cut another way, the next request is accepted and was signed by
nobody, unless its nonce was seen before. -/
theorem sign_misread {username : String} {r r₀ : SignedRequest} (hb : r.Bounded)
    (hfresh : (w.config.handle w.nonces r (some ⟨r.user, r.text⟩)).map Prod.snd = some none)
    (huser : r.user = username) (htext : r.text = r₀.text) (hshape : r.shape ≠ r₀.shape)
    (hbefore : (username, r) ∉ w.signed) (hs : w.step (.sign username r₀) = some w') :
    ∃ w₂, w'.step (.submit r (some ⟨username, r₀.text⟩)) = some w₂ ∧
      r ∈ w₂.accepted ∧ (r.user, r) ∉ w₂.signed := by
  cases hs
  obtain ⟨⟨nonces, refused⟩, hhandle, hnone⟩ := Option.map_eq_some_iff.mp hfresh
  obtain rfl : refused = none := hnone
  rw [huser, htext] at hhandle
  have hmade : r.Bounded ∧ SigningWorld.Made { w with signed := w.signed ++ [(username, r₀)] }
      (some ⟨username, r₀.text⟩) :=
    ⟨hb, (username, r₀), List.mem_append_right _ (List.mem_singleton_self _), rfl⟩
  refine ⟨{ w with
    signed := w.signed ++ [(username, r₀)], nonces := nonces, accepted := w.accepted ++ [r] },
    ?_, List.mem_append_right _ (List.mem_singleton_self _), ?_⟩
  · show (if _ then _ else _) = _
    rw [if_pos hmade]
    dsimp only
    rw [show ({ w with signed := w.signed ++ [(username, r₀)] } : SigningWorld π).config.handle
      w.nonces r (some ⟨username, r₀.text⟩) = some (nonces, none) from hhandle]
  · rw [huser]
    intro hmem
    rcases List.mem_append.mp hmem with hmem | hmem
    · exact hbefore hmem
    · exact hshape (by rw [(Prod.mk.inj (List.mem_singleton.mp hmem)).2])

/-- Alice asks for the limits on files. -/
def asksLimits : List (SigningLabel String) :=
  [.sign "alice" (.blobInfo "alice" "n"),
    .submit (.blobInfo "alice" "n")
      (some ⟨"alice", (SignedRequest.blobInfo "alice" "n").text⟩)]

/-- Alice sends Bob the payload `2345AAAA` as packet `1`, and what is pushed is the payload `AAAA`
as packet `12345`. -/
def pushes : List (SigningLabel String) :=
  [.sign "alice" (.push "alice" "bob" 1 "2345AAAA"),
    .submit (.push "alice" "bob" 12345 "AAAA")
      (some ⟨"alice", (SignedRequest.push "alice" "bob" 1 "2345AAAA").text⟩)]

/-- Nothing else of Alice's reads as her question for the limits: the other operations have
another tag, or none and her name. -/
theorem unambiguous_limits :
    Unambiguous ⟨["alice", "bob"], 0⟩ [] [] "alice" (.blobInfo "alice" "n") where
  own := by
    intro r hacc huser htext
    left
    cases r with
    | blobInfo user nonce =>
        obtain rfl : user = "alice" := huser
        have hnonce : nonce.toList ++ [] = "n".toList ++ [] := congrArg (List.drop 16) htext
        rw [List.append_nil, List.append_nil, String.toList_inj] at hnonce
        rw [hnonce]
    | push sender | notify sender | notifyMulti sender | callSignal sender | callPoll sender =>
        obtain rfl : sender = "alice" := huser
        have hchar : some 'a' = some 'b' := congrArg List.head? htext
        cases hchar
    | blobPut =>
        have hchar : some 'p' = some 'i' := congrArg (fun t => t[5]?) htext
        cases hchar
    | blobGet =>
        have hchar : some 'g' = some 'i' := congrArg (fun t => t[5]?) htext
        cases hchar
    | pull | map | determinate | arrivedGet | arrivedPut | other => cases hacc.2
  apart := by
    rintro - - r (hr | ⟨hr, -⟩) -
    · cases hr
    · cases hr

theorem requests_bound_asksLimits :
    ∃ w : SigningWorld String, Lts.exec step (init twoAccounts 0 1) asksLimits = some w ∧
      w.accepted = [.blobInfo "alice" "n"] ∧ ∀ r ∈ w.accepted, (r.user, r) ∈ w.signed := by
  have hreach : Lts.Reach step UnambiguousStep (init twoAccounts 0 1) _ :=
    (Lts.Reach.refl.tail (l := .sign "alice" (.blobInfo "alice" "n")) unambiguous_limits rfl).tail
      (l := .submit (.blobInfo "alice" "n")
        (some ⟨"alice", (SignedRequest.blobInfo "alice" "n").text⟩)) trivial rfl
  exact ⟨_, rfl, rfl, (requests_bound hreach).1⟩

/-- A push is accepted that its sender did not sign: the digits of the number and the payload
run into each other. -/
theorem accepted_with_shifted_digits :
    ¬ ∀ w : SigningWorld String, Lts.Reach step (fun _ _ => True) (init twoAccounts 0 1) w →
      (∀ r ∈ w.accepted, (r.user, r) ∈ w.signed) ∧
        ∀ r ∈ w.accepted, ∀ r' ∈ w.accepted, r.text = r'.text → r = r' := by
  intro h
  have hrun : (Lts.execWhile step (fun _ _ => True) (init twoAccounts 0 1)
      pushes).isSome = true := by decide
  exact absurd ((h _ (Lts.reach_getD hrun)).1 (.push "alice" "bob" 12345 "AAAA") (by decide))
    (by decide)

end SigningWorld

end Paranoia
