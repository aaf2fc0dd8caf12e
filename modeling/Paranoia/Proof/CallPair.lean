import Mathlib.Logic.Function.Basic
import Paranoia.Proof.CallMoves

/-!
# Two parties and their calls

What two parties know of their calls, and the envelopes that are on their way. Every call has one
party that has started it, and goes on independently of the others: a move of a party, or the
arrival of an envelope, is about one call and leaves the pictures of the others as they are. So
what holds of calls is proved of one call, with its caller and its callee (`Picture.Sound`).
-/

namespace Paranoia

def CallSignal.callId : CallSignal → String
  | offer c _ _ | answer c _ _ _ | hangup c _ | ice c _ => c

/-- A call, as it stands with the caller, with the callee and on the way between them. -/
structure Picture where
  /-- The caller has called, or talks. -/
  calling : Prop
  callerTalks : Prop
  /-- It rings at the callee, or the callee talks. -/
  ringing : Prop
  calleeTalks : Prop
  /-- On their way: the offer, an answer that accepts or rejects, and either party's hangup. -/
  offer : Prop
  accepting : Prop
  rejecting : Prop
  callerHangup : Prop
  calleeHangup : Prop
  /-- The offer has arrived, and a hangup has. -/
  offered : Prop
  hungUp : Prop

namespace Picture

/-- What holds of a call at any time. -/
structure Sound (P : Picture) : Prop where
  callerOnce : ¬ (P.calling ∧ P.callerTalks)
  calleeOnce : ¬ (P.ringing ∧ P.calleeTalks)
  offer_new : P.offer → ¬ P.offered
  ringing_offered : P.ringing → P.offered
  talks_offered : P.calleeTalks → P.offered
  accepting_offered : P.accepting → P.offered
  rejecting_offered : P.rejecting → P.offered
  hangup_offered : P.calleeHangup → P.offered
  callerLeft : P.callerHangup → ¬ P.calling ∧ ¬ P.callerTalks
  calleeLeft : P.calleeHangup → ¬ P.ringing ∧ ¬ P.calleeTalks
  rejected : P.rejecting → ¬ P.ringing ∧ ¬ P.calleeTalks
  offer_live : P.offer → P.calling ∨ P.callerHangup ∨ P.hungUp
  ringing_live : P.ringing → P.calling ∨ P.callerHangup ∨ P.hungUp
  callee_live : P.calleeTalks → P.callerTalks ∨ (P.calling ∧ P.accepting) ∨ P.callerHangup
  caller_live : P.callerTalks → P.calleeTalks ∨ P.calleeHangup
  accepting_live : P.calling → P.accepting → P.calleeTalks ∨ P.calleeHangup

/-- The caller has just called. -/
def fresh : Picture where
  calling := True
  callerTalks := False
  ringing := False
  calleeTalks := False
  offer := True
  accepting := False
  rejecting := False
  callerHangup := False
  calleeHangup := False
  offered := False
  hungUp := False

theorem sound_fresh : fresh.Sound := by
  constructor <;> simp [fresh]

variable {P : Picture}

/-! What the two parties do. -/

theorem Sound.callerHangsUp (h : P.Sound) :
    { P with calling := False, callerTalks := False, callerHangup := True }.Sound := by
  cases h
  constructor <;> simp_all

theorem Sound.calleeHangsUp (h : P.Sound) (hin : P.ringing ∨ P.calleeTalks) :
    { P with ringing := False, calleeTalks := False, calleeHangup := True }.Sound := by
  cases h
  constructor <;> grind

theorem Sound.calleeRejects (h : P.Sound) (hin : P.ringing) :
    { P with ringing := False, calleeTalks := False, rejecting := True }.Sound := by
  cases h
  constructor <;> grind

theorem Sound.calleeAccepts (h : P.Sound) (hin : P.ringing) (hup : ¬ P.hungUp) :
    { P with ringing := False, calleeTalks := True, accepting := True }.Sound := by
  cases h
  constructor <;> grind

theorem Sound.calleeFails (h : P.Sound) (hin : P.ringing) :
    { P with ringing := False, calleeTalks := False }.Sound := by
  cases h
  constructor <;> grind

/-! What arrives. Another envelope of the kind may be left. -/

theorem Sound.offerTaken (h : P.Sound) (hoffer : P.offer) :
    { P with offer := False, ringing := True, calleeTalks := False, offered := True }.Sound := by
  cases h
  constructor <;> grind

theorem Sound.offerRefused (h : P.Sound) (hoffer : P.offer) :
    { P with offer := False, offered := True, calleeHangup := True }.Sound := by
  cases h
  constructor <;> grind

theorem Sound.acceptTaken (h : P.Sound) (left : Prop) (hacc : P.accepting) (hcalling : P.calling) :
    { P with calling := False, callerTalks := True, accepting := left }.Sound := by
  cases h
  constructor <;> grind

theorem Sound.acceptFails {left : Prop} (h : P.Sound) (hleft : left → P.accepting) :
    { P with calling := False, callerTalks := False, callerHangup := True
             accepting := left }.Sound := by
  cases h
  constructor <;> grind

theorem Sound.acceptDropped {left : Prop} (h : P.Sound) (hleft : left → P.accepting)
    (hnot : ¬ P.calling) : { P with accepting := left }.Sound := by
  cases h
  constructor <;> grind

theorem Sound.rejectTaken (h : P.Sound) (left : Prop) (hrej : P.rejecting) (hcalling : P.calling) :
    { P with calling := False, rejecting := left }.Sound := by
  cases h
  constructor <;> grind

theorem Sound.rejectDropped {left : Prop} (h : P.Sound) (hleft : left → P.rejecting) :
    { P with rejecting := left }.Sound := by
  cases h
  constructor <;> grind

theorem Sound.callerHangupArrives (h : P.Sound) (left : Prop) (hhang : P.callerHangup) :
    { P with ringing := False, calleeTalks := False, callerHangup := left
             hungUp := True }.Sound := by
  cases h
  constructor <;> grind

theorem Sound.calleeHangupArrives (h : P.Sound) (left : Prop) (hhang : P.calleeHangup) :
    { P with calling := False, callerTalks := False, calleeHangup := left }.Sound := by
  cases h
  constructor <;> grind

end Picture

/-! ## Two parties -/

/-- What there is to know of the calls of two parties. -/
structure CallView where
  phase : Bool → CallPhase
  callId : Bool → String
  /-- What is on its way, by the party that has sent it. -/
  flying : List (Bool × CallSignal)
  /-- The party that has started a call. -/
  owner : String → Option Bool
  /-- The calls whose offer has arrived, and those whose hangup has arrived at a party. -/
  offered : List String
  hungUp : List (Bool × String)

namespace CallView

variable (v : CallView)

/-- A party has moved on, and has sent something. -/
def moved (p : Bool) (phase : CallPhase) (callId : String) (new : List CallSignal) : CallView :=
  { v with
    phase := Function.update v.phase p phase
    callId := Function.update v.callId p callId
    flying := new.map (fun s => (p, s)) ++ v.flying }

/-- What a party has sent has arrived. -/
def taken (p : Bool) (s : CallSignal) : CallView :=
  { v with
    flying := v.flying.erase (p, s)
    offered := match s with
      | .offer c _ _ => c :: v.offered
      | _ => v.offered
    hungUp := match s with
      | .hangup c _ => (!p, c) :: v.hungUp
      | _ => v.hungUp }

/-- A call that a party has started. -/
def picture (o : Bool) (c : String) : Picture where
  calling := v.phase o = .outgoing ∧ v.callId o = c
  callerTalks := v.phase o = .running ∧ v.callId o = c
  ringing := v.phase (!o) = .incoming ∧ v.callId (!o) = c
  calleeTalks := v.phase (!o) = .running ∧ v.callId (!o) = c
  offer := ∃ s l, (o, .offer c s l) ∈ v.flying
  accepting := ∃ l r, (!o, .answer c true l r) ∈ v.flying
  rejecting := ∃ l r, (!o, .answer c false l r) ∈ v.flying
  callerHangup := ∃ r, (o, .hangup c r) ∈ v.flying
  calleeHangup := ∃ r, (!o, .hangup c r) ∈ v.flying
  offered := c ∈ v.offered
  hungUp := (!o, c) ∈ v.hungUp

def offerId? : Bool × CallSignal → Option String
  | (_, .offer c _ _) => some c
  | _ => none

/-- Whose signals these can be. -/
def Fits (owner : String → Option Bool) (p : Bool) : CallSignal → Prop
  | .offer c _ _ => owner c = some p
  | .answer c _ _ _ => owner c = some (!p)
  | .hangup c _ => owner c ≠ none
  | .ice _ _ => True

/-- Which party can be where, and send what. -/
structure Roles : Prop where
  outgoing : ∀ p, v.phase p = .outgoing → v.owner (v.callId p) = some p
  incoming : ∀ p, v.phase p = .incoming → v.owner (v.callId p) = some (!p)
  running : ∀ p, v.phase p = .running → v.owner (v.callId p) ≠ none
  flying : ∀ p s, (p, s) ∈ v.flying → Fits v.owner p s
  offered : ∀ c ∈ v.offered, v.owner c ≠ none
  hungUp : ∀ p c, (p, c) ∈ v.hungUp → v.owner c ≠ none
  offers : (v.flying.filterMap offerId?).Nodup

/-- What holds of two parties at any time. -/
structure Inv : Prop where
  roles : v.Roles
  sound : ∀ o c, v.owner c = some o → (v.picture o c).Sound

variable {v} {p o : Bool} {c : String} {s : CallSignal} {phase : CallPhase} {callId : String}
  {new : List CallSignal}

/-- A list of signals, candidates aside. -/
def Says (new l : List CallSignal) : Prop := new.filter (fun s => ¬ s.isIce) = l

theorem Says.mem {l : List CallSignal} (h : Says new l) (hs : s.isIce = false) :
    s ∈ new ↔ s ∈ l := by
  rw [← h]
  simp [hs]

theorem Says.offers {l : List CallSignal} (h : Says new l) :
    (new.map (fun s => (p, s))).filterMap offerId?
      = (l.map (fun s => (p, s))).filterMap offerId? := by
  rw [← show new.filter (fun s => ¬ s.isIce) = l from h]
  clear h
  induction new with
  | nil => rfl
  | cons s new ih =>
      cases s <;> simp_all [List.filterMap_cons, CallSignal.isIce, offerId?]

section

variable {l : List CallSignal} (h : Says new l)

include h

theorem picture_moved_self : (v.moved p phase callId new).picture p c =
    { v.picture p c with
      calling := phase = .outgoing ∧ callId = c
      callerTalks := phase = .running ∧ callId = c
      offer := (∃ s k, .offer c s k ∈ l) ∨ (v.picture p c).offer
      callerHangup := (∃ r, .hangup c r ∈ l) ∨ (v.picture p c).callerHangup } := by
  have hoffer : ∀ s k, .offer c s k ∈ new ↔ .offer c s k ∈ l := fun _ _ => h.mem rfl
  have hhangup : ∀ r, .hangup c r ∈ new ↔ .hangup c r ∈ l := fun _ => h.mem rfl
  simp [picture, moved, exists_or, hoffer, hhangup]

theorem picture_moved_other : (v.moved p phase callId new).picture (!p) c =
    { v.picture (!p) c with
      ringing := phase = .incoming ∧ callId = c
      calleeTalks := phase = .running ∧ callId = c
      accepting := (∃ k r, .answer c true k r ∈ l) ∨ (v.picture (!p) c).accepting
      rejecting := (∃ k r, .answer c false k r ∈ l) ∨ (v.picture (!p) c).rejecting
      calleeHangup := (∃ r, .hangup c r ∈ l) ∨ (v.picture (!p) c).calleeHangup } := by
  have hanswer : ∀ a k r, .answer c a k r ∈ new ↔ .answer c a k r ∈ l := fun _ _ _ => h.mem rfl
  have hhangup : ∀ r, .hangup c r ∈ new ↔ .hangup c r ∈ l := fun _ => h.mem rfl
  simp [picture, moved, exists_or, hanswer, hhangup]

/-- The other party's move, in a call that this one has started. -/
theorem picture_moved_callee : (v.moved (!p) phase callId new).picture p c =
    { v.picture p c with
      ringing := phase = .incoming ∧ callId = c
      calleeTalks := phase = .running ∧ callId = c
      accepting := (∃ k r, .answer c true k r ∈ l) ∨ (v.picture p c).accepting
      rejecting := (∃ k r, .answer c false k r ∈ l) ∨ (v.picture p c).rejecting
      calleeHangup := (∃ r, .hangup c r ∈ l) ∨ (v.picture p c).calleeHangup } := by
  simpa only [Bool.not_not] using picture_moved_other (p := !p) h

end

/-! ### One call at a time -/

variable {l : List CallSignal}

theorem picture_moved_eq (hsaid : Says new l)
    (hphase : ∀ φ : CallPhase, φ ≠ .idle →
      ((phase = φ ∧ callId = c) ↔ (v.phase p = φ ∧ v.callId p = c)))
    (hspeaks : ∀ s ∈ l, s.callId ≠ c) :
    (v.moved p phase callId new).picture o c = v.picture o c := by
  have hnone : ∀ s : CallSignal, s.callId = c → s ∉ l := fun s hc hm => hspeaks s hm hc
  have hoffer : ∀ s k, .offer c s k ∉ l := fun _ _ => hnone _ rfl
  have hanswer : ∀ a k r, .answer c a k r ∉ l := fun _ _ _ => hnone _ rfl
  have hhangup : ∀ r, .hangup c r ∉ l := fun _ => hnone _ rfl
  rcases Bool.eq_or_eq_not o p with rfl | rfl
  · rw [picture_moved_self hsaid]
    simp [hoffer, hhangup, hphase, CallView.picture]
  · rw [picture_moved_other hsaid]
    simp [hanswer, hhangup, hphase, CallView.picture]

/-- A party moves on in one call, or stays where it is, and speaks of that call only. -/
structure About (v : CallView) (p : Bool) (c : String) (phase : CallPhase) (callId : String)
    (l : List CallSignal) : Prop where
  from_to : (phase = v.phase p ∧ callId = v.callId p)
    ∨ ((v.phase p ≠ .idle → v.callId p = c) ∧ (phase ≠ .idle → callId = c))
  speaks : ∀ s ∈ l, s.callId = c

theorem About.picture {c' : String} (h : About v p c phase callId l) (hsaid : Says new l)
    (hne : c' ≠ c) : (v.moved p phase callId new).picture o c' = v.picture o c' := by
  refine picture_moved_eq hsaid (fun φ hφ => ?_) (fun s hs heq => hne (heq.symm.trans (h.speaks s hs)))
  rcases h.from_to with ⟨hsame, hid⟩ | ⟨hfrom, hto⟩
  · rw [hsame, hid]
  · constructor
    · rintro ⟨rfl, rfl⟩
      exact absurd (hto hφ) hne
    · rintro ⟨rfl, rfl⟩
      exact absurd (hfrom hφ) hne

theorem Roles.moved (h : v.Roles) (hsaid : Says new l)
    (houtgoing : phase = .outgoing → v.owner callId = some p)
    (hincoming : phase = .incoming → v.owner callId = some (!p))
    (hrunning : phase = .running → v.owner callId ≠ none)
    (hfits : ∀ s ∈ l, Fits v.owner p s)
    (hoffers : ((l.map (fun s => (p, s))).filterMap offerId?
      ++ v.flying.filterMap offerId?).Nodup) :
    (v.moved p phase callId new).Roles := by
  have hat : ∀ (φ : CallPhase) (want : Bool → String → Prop),
      (phase = φ → want p callId) → (∀ q, v.phase q = φ → want q (v.callId q)) →
      ∀ q, (v.moved p phase callId new).phase q = φ →
        want q ((v.moved p phase callId new).callId q) := by
    intro φ want hp hq q hphase
    by_cases hqp : q = p
    · subst hqp
      simp only [CallView.moved, Function.update_self] at hphase ⊢
      exact hp hphase
    · simp only [CallView.moved, Function.update_of_ne hqp] at hphase ⊢
      exact hq q hphase
  constructor
  · exact hat .outgoing (fun q c => v.owner c = some q) houtgoing h.outgoing
  · exact hat .incoming (fun q c => v.owner c = some (!q)) hincoming h.incoming
  · exact hat .running (fun _ c => v.owner c ≠ none) hrunning h.running
  · intro q s hm
    rcases List.mem_append.mp hm with hm | hm
    · obtain ⟨s', hs', heq⟩ := List.mem_map.mp hm
      cases heq
      cases hice : s.isIce with
      | false => exact hfits s ((hsaid.mem hice).mp hs')
      | true =>
          cases s with
          | ice => trivial
          | offer | answer | hangup => cases hice
    · exact h.flying q s hm
  · exact h.offered
  · exact h.hungUp
  · show ((new.map (fun s => (p, s)) ++ v.flying).filterMap offerId?).Nodup
    rw [List.filterMap_append, hsaid.offers]
    exact hoffers

theorem Roles.taken (h : v.Roles) (hs : (p, s) ∈ v.flying) : (v.taken p s).Roles := by
  have hfits := h.flying p s hs
  constructor
  · exact h.outgoing
  · exact h.incoming
  · exact h.running
  · exact fun q s' hm => h.flying q s' (List.mem_of_mem_erase hm)
  · intro c hc
    cases s with
    | offer c' sid l =>
        rcases List.mem_cons.mp hc with rfl | hc
        · exact Option.ne_none_iff_exists'.mpr ⟨p, hfits⟩
        · exact h.offered c hc
    | answer | hangup | ice => exact h.offered c hc
  · intro q c hc
    cases s with
    | hangup c' r =>
        rcases List.mem_cons.mp hc with heq | hc
        · cases heq
          exact hfits
        · exact h.hungUp q c hc
    | answer | offer | ice => exact h.hungUp q c hc
  · exact h.offers.sublist ((List.erase_sublist).filterMap _)

/-- A step that is about one call leaves the pictures of the others as they are. -/
theorem Inv.of_picture {v' : CallView} (hi : v.Inv) (hr : v'.Roles) (howner : v'.owner = v.owner)
    (hne : ∀ o c', c' ≠ c → v'.picture o c' = v.picture o c')
    (hc : ∀ o, v.owner c = some o → (v.picture o c).Sound → (v'.picture o c).Sound) : v'.Inv := by
  refine ⟨hr, fun o c' ho => ?_⟩
  rw [howner] at ho
  by_cases h : c' = c
  · subst h
    exact hc o ho (hi.sound o c' ho)
  · rw [hne o c' h]
    exact hi.sound o c' ho

/-! ### What a party does -/

theorem Inv.hangup (hi : v.Inv) {r : String} (hphase : v.phase p ≠ .idle)
    (hsaid : Says new [.hangup (v.callId p) r]) : (v.moved p .idle callId new).Inv := by
  have habout : About v p (v.callId p) .idle callId [.hangup (v.callId p) r] :=
    ⟨.inr ⟨fun _ => rfl, fun h => absurd rfl h⟩, by simp [CallSignal.callId]⟩
  have howner : v.owner (v.callId p) ≠ none := by
    cases h : v.phase p with
    | idle => exact absurd h hphase
    | outgoing => simp [hi.roles.outgoing p h]
    | incoming => simp [hi.roles.incoming p h]
    | running => exact hi.roles.running p h
  refine hi.of_picture ?_ rfl (fun o c' => habout.picture hsaid) (fun o ho hsound => ?_)
  · refine hi.roles.moved hsaid (by simp) (by simp) (by simp) ?_ ?_
    · simpa [Fits] using howner
    · exact hi.roles.offers
  · rcases Bool.eq_or_eq_not o p with rfl | rfl
    · rw [picture_moved_self hsaid]
      simpa using hsound.callerHangsUp
    · rw [picture_moved_other hsaid]
      have hin : v.phase p = .incoming ∨ v.phase p = .running := by
        cases h : v.phase p with
        | idle => exact absurd h hphase
        | outgoing =>
            rw [hi.roles.outgoing p h] at ho
            simp at ho
        | incoming => exact .inl rfl
        | running => exact .inr rfl
      have hat : (v.picture (!p) (v.callId p)).ringing ∨ (v.picture (!p) (v.callId p)).calleeTalks := by
        simpa [CallView.picture] using hin
      simpa using hsound.calleeHangsUp hat

/-- Nothing is said, and the party stays where it is. -/
theorem Inv.quiet (hi : v.Inv) (hsaid : Says new [])
    (hphase : (phase = v.phase p ∧ callId = v.callId p) ∨ (phase = .idle ∧ v.phase p = .idle)) :
    (v.moved p phase callId new).Inv := by
  have hpicture : ∀ o c, (v.moved p phase callId new).picture o c = v.picture o c := by
    intro o c
    refine picture_moved_eq hsaid (fun φ hφ => ?_) (by simp)
    rcases hphase with ⟨hsame, hid⟩ | ⟨hidle, hidle'⟩
    · rw [hsame, hid]
    · rw [hidle, hidle']
      simp [hφ.symm]
  refine ⟨?_, fun o c ho => hpicture o c ▸ hi.sound o c ho⟩
  rcases hphase with ⟨hsame, hid⟩ | ⟨hidle, _⟩
  · refine hi.roles.moved hsaid ?_ ?_ ?_ (by simp) hi.roles.offers
    · rw [hsame, hid]
      exact hi.roles.outgoing p
    · rw [hsame, hid]
      exact hi.roles.incoming p
    · rw [hsame, hid]
      exact hi.roles.running p
  · refine hi.roles.moved hsaid ?_ ?_ ?_ (by simp) hi.roles.offers <;> simp [hidle]

/-- A party to which it rings moves on. -/
theorem Inv.fromIncoming (hi : v.Inv) (hphase : v.phase p = .incoming) (hsaid : Says new l)
    (hto : phase = .idle ∨ phase = .running ∧ callId = v.callId p)
    (hl : ∀ s ∈ l, ∃ a k r, s = .answer (v.callId p) a k r)
    (hsound : (v.picture (!p) (v.callId p)).Sound → (v.picture (!p) (v.callId p)).ringing →
      ((v.moved p phase callId new).picture (!p) (v.callId p)).Sound) :
    (v.moved p phase callId new).Inv := by
  have howner := hi.roles.incoming p hphase
  have habout : About v p (v.callId p) phase callId l := by
    refine ⟨.inr ⟨fun _ => rfl, fun h => ?_⟩, fun s hs => ?_⟩
    · rcases hto with hidle | ⟨_, hid⟩
      · exact absurd hidle h
      · exact hid
    · obtain ⟨a, k, r, rfl⟩ := hl s hs
      rfl
  refine hi.of_picture ?_ rfl (fun o c' => habout.picture hsaid) (fun o ho h => ?_)
  · refine hi.roles.moved hsaid ?_ ?_ ?_ ?_ ?_
    · rcases hto with rfl | ⟨rfl, _⟩ <;> simp
    · rcases hto with rfl | ⟨rfl, _⟩ <;> simp
    · rcases hto with rfl | ⟨rfl, rfl⟩ <;> simp [howner]
    · intro s hs
      obtain ⟨a, k, r, rfl⟩ := hl s hs
      exact howner
    · have hnone : (l.map (fun s => (p, s))).filterMap offerId? = [] := by
        refine List.filterMap_eq_nil_iff.mpr (fun x hx => ?_)
        obtain ⟨s, hs, rfl⟩ := List.mem_map.mp hx
        obtain ⟨a, k, r, rfl⟩ := hl s hs
        rfl
      rw [hnone]
      exact hi.roles.offers
  · obtain rfl : o = !p := Option.some.inj (ho.symm.trans howner)
    exact hsound h (by simp [CallView.picture, hphase])

theorem Inv.drop (hi : v.Inv) (hphase : v.phase p = .incoming) (hsaid : Says new []) :
    (v.moved p .idle callId new).Inv := by
  refine hi.fromIncoming hphase hsaid (.inl rfl) (by simp) (fun hsound hin => ?_)
  rw [picture_moved_other hsaid]
  simpa using hsound.calleeFails hin

theorem Inv.reject (hi : v.Inv) (hphase : v.phase p = .incoming) {k : List String} {r : String}
    (hsaid : Says new [.answer (v.callId p) false k r]) : (v.moved p .idle callId new).Inv := by
  refine hi.fromIncoming hphase hsaid (.inl rfl) (by simp) (fun hsound hin => ?_)
  rw [picture_moved_other hsaid]
  simpa using hsound.calleeRejects hin

theorem Inv.accept (hi : v.Inv) (hphase : v.phase p = .incoming)
    (hup : (p, v.callId p) ∉ v.hungUp) {k : List String} {r : String}
    (hsaid : Says new [.answer (v.callId p) true k r]) :
    (v.moved p .running (v.callId p) new).Inv := by
  refine hi.fromIncoming hphase hsaid (.inr ⟨rfl, rfl⟩) (by simp) (fun hsound hin => ?_)
  rw [picture_moved_other hsaid]
  simpa using hsound.calleeAccepts hin (by simpa [CallView.picture] using hup)

/-! ### A new call -/

/-- An identifier is taken. -/
def started (v : CallView) (p : Bool) (c : String) : CallView :=
  { v with owner := Function.update v.owner c (some p) }

theorem Inv.started (hi : v.Inv) (hc : v.owner c = none) : (v.started p c).Inv := by
  have hkeep : ∀ c' q, v.owner c' = some q → (v.started p c).owner c' = some q := by
    intro c' q hq
    have hne : c' ≠ c := by
      rintro rfl
      rw [hc] at hq
      cases hq
    simpa [CallView.started, Function.update_of_ne hne] using hq
  have hsome : ∀ c', v.owner c' ≠ none → (v.started p c).owner c' ≠ none := by
    intro c' h
    obtain ⟨q, hq⟩ := Option.ne_none_iff_exists'.mp h
    rw [hkeep c' q hq]
    exact Option.some_ne_none _
  have hfits : ∀ q s, Fits v.owner q s → Fits (v.started p c).owner q s := by
    intro q s h
    cases s with
    | offer => exact hkeep _ _ h
    | answer => exact hkeep _ _ h
    | hangup => exact hsome _ h
    | ice => trivial
  refine ⟨⟨fun q h => hkeep _ _ (hi.roles.outgoing q h), fun q h => hkeep _ _ (hi.roles.incoming q h),
    fun q h => hsome _ (hi.roles.running q h), fun q s h => hfits q s (hi.roles.flying q s h),
    fun c' h => hsome _ (hi.roles.offered c' h), fun q c' h => hsome _ (hi.roles.hungUp q c' h),
    hi.roles.offers⟩, fun o c' ho => ?_⟩
  by_cases hne : c' = c
  · subst hne
    -- nobody has ever spoken of the call
    have hphase : ∀ q φ, φ ≠ .idle → ¬ (v.phase q = φ ∧ v.callId q = c') := by
      rintro q φ hφ ⟨rfl, rfl⟩
      cases h : v.phase q with
      | idle => exact hφ h
      | outgoing => simp [hi.roles.outgoing q h] at hc
      | incoming => simp [hi.roles.incoming q h] at hc
      | running => exact hi.roles.running q h hc
    have hflying : ∀ q s, s.callId = c' → s.isIce = false → (q, s) ∉ v.flying := by
      intro q s hs hice hm
      have := hi.roles.flying q s hm
      cases s with
      | ice => cases hice
      | offer | answer | hangup =>
          subst hs
          simp [Fits, CallSignal.callId] at this hc
          simp [this] at hc
    have hoffered : c' ∉ v.offered := fun h => hi.roles.offered c' h hc
    have hhungUp : ∀ q, (q, c') ∉ v.hungUp := fun q h => hi.roles.hungUp q c' h hc
    have hoffer : ∀ q s k, (q, .offer c' s k) ∉ v.flying := fun q _ _ => hflying q _ rfl rfl
    have hanswer : ∀ q a k r, (q, .answer c' a k r) ∉ v.flying :=
      fun q _ _ _ => hflying q _ rfl rfl
    have hhangup : ∀ q r, (q, .hangup c' r) ∉ v.flying := fun q _ => hflying q _ rfl rfl
    constructor <;> simp [CallView.started, CallView.picture, hphase, hoffer, hanswer, hhangup,
      hoffered, hhungUp]
  · refine hi.sound o c' ?_
    simpa [CallView.started, Function.update_of_ne hne] using ho

/-- A party calls, under an identifier nobody has used. -/
theorem Inv.call (hi : v.Inv) (hc : v.owner c = none) (hphase : v.phase p = .idle)
    {sid : String} {k : List String} (hsaid : Says new [.offer c sid k]) :
    ((v.started p c).moved p .outgoing c new).Inv := by
  have his := hi.started (p := p) hc
  have howner : (v.started p c).owner c = some p := by simp [CallView.started]
  have hidle : (v.started p c).phase p = .idle := hphase
  have habout : About (v.started p c) p c .outgoing c [.offer c sid k] :=
    ⟨.inr ⟨fun h => absurd hidle h, fun _ => rfl⟩, by simp [CallSignal.callId]⟩
  have hnone : ∀ q s, s.callId = c → s.isIce = false → (q, s) ∉ v.flying := by
    intro q s hs hice hm
    have := hi.roles.flying q s hm
    cases s with
    | ice => cases hice
    | offer | answer | hangup =>
        subst hs
        simp [Fits, CallSignal.callId] at this hc
        simp [this] at hc
  refine his.of_picture ?_ rfl (fun o c' => habout.picture hsaid) (fun o ho hsound => ?_)
  · refine his.roles.moved hsaid (fun _ => howner) (by simp) (by simp) ?_ ?_
    · simpa [Fits] using howner
    · show (c :: v.flying.filterMap offerId?).Nodup
      refine List.nodup_cons.mpr ⟨fun hm => ?_, hi.roles.offers⟩
      obtain ⟨⟨q, s⟩, hx, heq⟩ := List.mem_filterMap.mp hm
      cases s with
      | offer c' sid' k' => exact hnone q (.offer c' sid' k') (Option.some.inj heq) rfl hx
      | answer | hangup | ice => cases heq
  · obtain rfl : o = p := Option.some.inj (ho.symm.trans howner)
    have hoffered : c ∉ v.offered := fun h => hi.roles.offered c h hc
    have htalks : ¬ (v.phase (!o) = .running ∧ v.callId (!o) = c) := by
      rintro ⟨hrunning, rfl⟩
      exact hi.roles.running _ hrunning hc
    have hrings : ¬ (v.phase (!o) = .incoming ∧ v.callId (!o) = c) := by
      rintro ⟨hincoming, rfl⟩
      simp [hi.roles.incoming _ hincoming] at hc
    have hanswer : ∀ q a k r, (q, .answer c a k r) ∉ v.flying :=
      fun q _ _ _ => hnone q _ rfl rfl
    have hhangup : ∀ q r, (q, .hangup c r) ∉ v.flying := fun q _ => hnone q _ rfl rfl
    have hhungUp : (!o, c) ∉ v.hungUp := fun h => hi.roles.hungUp _ c h hc
    rw [picture_moved_self hsaid]
    simpa [Picture.fresh, CallView.started, CallView.picture, htalks, hrings, hanswer, hhangup,
      hoffered, hhungUp] using Picture.sound_fresh

/-! ### What arrives -/

theorem picture_taken_ne (hne : s.callId ≠ c) : (v.taken p s).picture o c = v.picture o c := by
  have hmem : ∀ q s', s'.callId = c → ((q, s') ∈ v.flying.erase (p, s) ↔ (q, s') ∈ v.flying) := by
    intro q s' hs'
    refine List.mem_erase_of_ne (fun heq => hne ?_)
    cases heq
    exact hs'
  have hoffer : ∀ q sid k, (q, .offer c sid k) ∈ v.flying.erase (p, s)
      ↔ (q, .offer c sid k) ∈ v.flying := fun _ _ _ => hmem _ _ rfl
  have hanswer : ∀ q a k r, (q, .answer c a k r) ∈ v.flying.erase (p, s)
      ↔ (q, .answer c a k r) ∈ v.flying := fun _ _ _ _ => hmem _ _ rfl
  have hhangup : ∀ q r, (q, .hangup c r) ∈ v.flying.erase (p, s)
      ↔ (q, .hangup c r) ∈ v.flying := fun _ _ => hmem _ _ rfl
  have hc : c ≠ s.callId := hne.symm
  cases s <;> simp_all [CallSignal.callId, picture, taken]

theorem picture_taken_ice {k : String} : (v.taken p (.ice c k)).picture o c = v.picture o c := by
  simp [picture, taken, List.mem_erase_of_ne]

theorem picture_taken_offer (hr : v.Roles) {sid : String} {k : List String}
    (hs : (p, .offer c sid k) ∈ v.flying) : (v.taken p (.offer c sid k)).picture p c =
      { v.picture p c with offer := False, offered := True } := by
  have hlast : ∀ sid' k', (p, .offer c sid' k') ∉ v.flying.erase (p, .offer c sid k) := by
    intro sid' k' hm
    have hperm := (List.perm_cons_erase hs).filterMap offerId?
    have hnodup := hperm.nodup_iff.mp hr.offers
    exact (List.nodup_cons.mp hnodup).1 (List.mem_filterMap.mpr ⟨_, hm, rfl⟩)
  simp [picture, taken, List.mem_erase_of_ne, hlast]

theorem picture_taken_accept {k : List String} {r : String} :
    ∃ left : Prop, (left → (v.picture (!p) c).accepting) ∧
      (v.taken p (.answer c true k r)).picture (!p) c =
        { v.picture (!p) c with accepting := left } := by
  refine ⟨∃ k' r', (p, .answer c true k' r') ∈ v.flying.erase (p, .answer c true k r), ?_, ?_⟩
  · rintro ⟨k', r', hm⟩
    exact ⟨k', r', by simpa using List.mem_of_mem_erase hm⟩
  · simp [picture, taken, List.mem_erase_of_ne]

theorem picture_taken_reject {k : List String} {r : String} :
    ∃ left : Prop, (left → (v.picture (!p) c).rejecting) ∧
      (v.taken p (.answer c false k r)).picture (!p) c =
        { v.picture (!p) c with rejecting := left } := by
  refine ⟨∃ k' r', (p, .answer c false k' r') ∈ v.flying.erase (p, .answer c false k r), ?_, ?_⟩
  · rintro ⟨k', r', hm⟩
    exact ⟨k', r', by simpa using List.mem_of_mem_erase hm⟩
  · simp [picture, taken, List.mem_erase_of_ne]

theorem picture_taken_callerHangup {r : String} :
    ∃ left : Prop, (v.taken p (.hangup c r)).picture p c =
      { v.picture p c with callerHangup := left, hungUp := True } := by
  refine ⟨∃ r', (p, .hangup c r') ∈ v.flying.erase (p, .hangup c r), ?_⟩
  simp [picture, taken, List.mem_erase_of_ne]

theorem picture_taken_calleeHangup {r : String} :
    ∃ left : Prop, (v.taken p (.hangup c r)).picture (!p) c =
      { v.picture (!p) c with calleeHangup := left } := by
  refine ⟨∃ r', (p, .hangup c r') ∈ v.flying.erase (p, .hangup c r), ?_⟩
  simp [picture, taken, List.mem_erase_of_ne]

/-- What has arrived, and what the other party does then. -/
theorem Inv.arrives {phase : CallPhase} (hi : v.Inv) (hc : s.callId = c)
    (habout : About (v.taken p s) (!p) c phase callId l) (hsaid : Says new l)
    (hroles : ((v.taken p s).moved (!p) phase callId new).Roles)
    (hsound : ∀ o, v.owner c = some o → (v.picture o c).Sound →
      (((v.taken p s).moved (!p) phase callId new).picture o c).Sound) :
    ((v.taken p s).moved (!p) phase callId new).Inv := by
  subst hc
  exact hi.of_picture hroles rfl
    (fun _ _ hne => (habout.picture hsaid hne).trans (picture_taken_ne (Ne.symm hne))) hsound

/-- The other party lets it pass. -/
theorem Inv.passes (hi : v.Inv) (hs : (p, s) ∈ v.flying) (hc : s.callId = c) (hsaid : Says new [])
    (hsound : ∀ o, v.owner c = some o → (v.picture o c).Sound →
      ((v.taken p s).picture o c).Sound) :
    ((v.taken p s).moved (!p) (v.phase (!p)) (v.callId (!p)) new).Inv := by
  subst hc
  exact (hi.of_picture (hi.roles.taken hs) rfl (fun _ _ hne => picture_taken_ne (Ne.symm hne))
    hsound).quiet hsaid (.inl ⟨rfl, rfl⟩)

theorem Inv.ice (hi : v.Inv) {k : String} (hs : (p, .ice c k) ∈ v.flying) (hsaid : Says new []) :
    ((v.taken p (.ice c k)).moved (!p) (v.phase (!p)) (v.callId (!p)) new).Inv := by
  refine hi.passes hs (c := c) rfl hsaid (fun o ho hsound => ?_)
  rw [picture_taken_ice]
  exact hsound

section

variable {sid : String} {k : List String} {r : String}

theorem Inv.offer (hi : v.Inv) (hs : (p, .offer c sid k) ∈ v.flying)
    (hphase : v.phase (!p) = .idle) (hsaid : Says new []) :
    ((v.taken p (.offer c sid k)).moved (!p) .incoming c new).Inv := by
  have howner : v.owner c = some p := hi.roles.flying _ _ hs
  have hidle : (v.taken p (.offer c sid k)).phase (!p) = .idle := hphase
  refine hi.arrives (c := c) rfl ⟨.inr ⟨fun h => absurd hidle h, fun _ => rfl⟩, by simp⟩ hsaid ?_ ?_
  · refine (hi.roles.taken hs).moved hsaid (by simp) (fun _ => ?_) (by simp) (by simp)
      (hi.roles.taken hs).offers
    rw [Bool.not_not]
    exact howner
  · intro o ho hsound
    obtain rfl : o = p := Option.some.inj (ho.symm.trans howner)
    have hoffer : (v.picture o c).offer := ⟨sid, k, hs⟩
    rw [picture_moved_callee hsaid, picture_taken_offer hi.roles hs]
    simpa using hsound.offerTaken hoffer

/-- An offer is never about the call there is. -/
theorem Inv.offer_new (hi : v.Inv) (hs : (p, .offer c sid k) ∈ v.flying)
    (hphase : v.phase (!p) ≠ .idle) : v.callId (!p) ≠ c := by
  rintro rfl
  have howner : v.owner (v.callId (!p)) = some p := hi.roles.flying _ _ hs
  have hsound := hi.sound p _ howner
  have hnew := hsound.offer_new ⟨sid, k, hs⟩
  cases h : v.phase (!p) with
  | idle => exact hphase h
  | outgoing => simp [hi.roles.outgoing _ h] at howner
  | incoming => exact hnew (hsound.ringing_offered ⟨h, rfl⟩)
  | running => exact hnew (hsound.talks_offered ⟨h, rfl⟩)

theorem Inv.busy (hi : v.Inv) (hs : (p, .offer c sid k) ∈ v.flying)
    (hsaid : Says new [.hangup c r]) :
    ((v.taken p (.offer c sid k)).moved (!p) (v.phase (!p)) (v.callId (!p)) new).Inv := by
  have howner : v.owner c = some p := hi.roles.flying _ _ hs
  have hr := hi.roles.taken hs
  refine hi.arrives (c := c) rfl ⟨.inl ⟨rfl, rfl⟩, by simp [CallSignal.callId]⟩ hsaid ?_ ?_
  · refine hr.moved hsaid (hr.outgoing _) (hr.incoming _) (hr.running _) ?_ hr.offers
    simp [Fits, taken, howner]
  · intro o ho hsound
    obtain rfl : o = p := Option.some.inj (ho.symm.trans howner)
    have hoffer : (v.picture o c).offer := ⟨sid, k, hs⟩
    rw [picture_moved_callee hsaid, picture_taken_offer hi.roles hs]
    simpa [CallView.picture] using hsound.offerRefused hoffer

/-- An answer to the party that is waiting for it. -/
theorem Inv.answered {a : Bool} {phase : CallPhase} (hi : v.Inv)
    (hs : (p, .answer c a k r) ∈ v.flying) (hphase : v.phase (!p) = .outgoing)
    (hid : v.callId (!p) = c) (hsaid : Says new l)
    (hto : phase = .idle ∨ phase = .running ∧ callId = c) (hl : ∀ s ∈ l, ∃ r, s = .hangup c r)
    (hsound : (v.picture (!p) c).Sound → (v.picture (!p) c).calling →
      (((v.taken p (.answer c a k r)).moved (!p) phase callId new).picture (!p) c).Sound) :
    ((v.taken p (.answer c a k r)).moved (!p) phase callId new).Inv := by
  have howner : v.owner c = some (!p) := hi.roles.flying _ _ hs
  have hr := hi.roles.taken hs
  refine hi.arrives (c := c) rfl ⟨.inr ⟨fun _ => hid, fun h => ?_⟩, fun s hs => ?_⟩ hsaid ?_ ?_
  · rcases hto with hidle | ⟨_, hid⟩
    · exact absurd hidle h
    · exact hid
  · obtain ⟨r, rfl⟩ := hl s hs
    rfl
  · refine hr.moved hsaid ?_ ?_ ?_ ?_ ?_
    · rcases hto with rfl | ⟨rfl, _⟩ <;> simp
    · rcases hto with rfl | ⟨rfl, _⟩ <;> simp
    · rcases hto with rfl | ⟨rfl, rfl⟩ <;> simp [taken, howner]
    · intro s hs
      obtain ⟨r, rfl⟩ := hl s hs
      simp [Fits, taken, howner]
    · have hnone : (l.map (fun s => (!p, s))).filterMap offerId? = [] := by
        refine List.filterMap_eq_nil_iff.mpr (fun x hx => ?_)
        obtain ⟨s, hs, rfl⟩ := List.mem_map.mp hx
        obtain ⟨r, rfl⟩ := hl s hs
        rfl
      rw [hnone]
      exact hr.offers
  · intro o ho h
    obtain rfl : o = !p := Option.some.inj (ho.symm.trans howner)
    exact hsound h ⟨hphase, hid⟩

theorem Inv.accepted (hi : v.Inv) (hs : (p, .answer c true k r) ∈ v.flying)
    (hphase : v.phase (!p) = .outgoing) (hid : v.callId (!p) = c) (hsaid : Says new []) :
    ((v.taken p (.answer c true k r)).moved (!p) .running c new).Inv := by
  refine hi.answered hs hphase hid hsaid (.inr ⟨rfl, rfl⟩) (by simp) (fun hsound hcalling => ?_)
  have hacc : (v.picture (!p) c).accepting := ⟨k, r, by simpa using hs⟩
  obtain ⟨left, _, htaken⟩ := picture_taken_accept (v := v) (p := p) (c := c) (k := k) (r := r)
  rw [picture_moved_self hsaid, htaken]
  simpa using hsound.acceptTaken left hacc hcalling

theorem Inv.acceptFails (hi : v.Inv) (hs : (p, .answer c true k r) ∈ v.flying)
    (hphase : v.phase (!p) = .outgoing) (hid : v.callId (!p) = c) {r' : String}
    (hsaid : Says new [.hangup c r']) :
    ((v.taken p (.answer c true k r)).moved (!p) .idle callId new).Inv := by
  refine hi.answered hs hphase hid hsaid (.inl rfl) (by simp) (fun hsound _ => ?_)
  obtain ⟨left, hleft, htaken⟩ :=
    picture_taken_accept (v := v) (p := p) (c := c) (k := k) (r := r)
  rw [picture_moved_self hsaid, htaken]
  simpa using hsound.acceptFails hleft

theorem Inv.rejected (hi : v.Inv) (hs : (p, .answer c false k r) ∈ v.flying)
    (hphase : v.phase (!p) = .outgoing) (hid : v.callId (!p) = c) (hsaid : Says new []) :
    ((v.taken p (.answer c false k r)).moved (!p) .idle callId new).Inv := by
  refine hi.answered hs hphase hid hsaid (.inl rfl) (by simp) (fun hsound hcalling => ?_)
  have hrej : (v.picture (!p) c).rejecting := ⟨k, r, by simpa using hs⟩
  obtain ⟨left, _, htaken⟩ := picture_taken_reject (v := v) (p := p) (c := c) (k := k) (r := r)
  rw [picture_moved_self hsaid, htaken]
  simpa [CallView.picture, hphase] using hsound.rejectTaken left hrej hcalling

/-- An answer that comes too late. -/
theorem Inv.answer_passes {a : Bool} (hi : v.Inv) (hs : (p, .answer c a k r) ∈ v.flying)
    (hnot : ¬ (v.phase (!p) = .outgoing ∧ v.callId (!p) = c)) (hsaid : Says new []) :
    ((v.taken p (.answer c a k r)).moved (!p) (v.phase (!p)) (v.callId (!p)) new).Inv := by
  have howner : v.owner c = some (!p) := hi.roles.flying _ _ hs
  refine hi.passes hs (c := c) rfl hsaid (fun o ho hsound => ?_)
  obtain rfl : o = !p := Option.some.inj (ho.symm.trans howner)
  cases a with
  | true =>
      obtain ⟨left, hleft, htaken⟩ :=
        picture_taken_accept (v := v) (p := p) (c := c) (k := k) (r := r)
      rw [htaken]
      exact hsound.acceptDropped hleft hnot
  | false =>
      obtain ⟨left, hleft, htaken⟩ :=
        picture_taken_reject (v := v) (p := p) (c := c) (k := k) (r := r)
      rw [htaken]
      exact hsound.rejectDropped hleft

theorem Inv.hungUp (hi : v.Inv) (hs : (p, .hangup c r) ∈ v.flying) (hid : v.callId (!p) = c)
    (hsaid : Says new []) : ((v.taken p (.hangup c r)).moved (!p) .idle callId new).Inv := by
  have hr := hi.roles.taken hs
  refine hi.arrives (c := c) rfl ⟨.inr ⟨fun _ => hid, fun h => absurd rfl h⟩, by simp⟩ hsaid ?_ ?_
  · exact hr.moved hsaid (by simp) (by simp) (by simp) (by simp) hr.offers
  · intro o ho hsound
    rcases Bool.eq_or_eq_not o p with rfl | rfl
    · have hhang : (v.picture o c).callerHangup := ⟨r, hs⟩
      obtain ⟨left, htaken⟩ := picture_taken_callerHangup (v := v) (p := o) (c := c) (r := r)
      rw [picture_moved_callee hsaid, htaken]
      simpa using hsound.callerHangupArrives left hhang
    · have hhang : (v.picture (!p) c).calleeHangup := ⟨r, by simpa using hs⟩
      obtain ⟨left, htaken⟩ := picture_taken_calleeHangup (v := v) (p := p) (c := c) (r := r)
      rw [picture_moved_self hsaid, htaken]
      simpa using hsound.calleeHangupArrives left hhang

/-- The end of a call that the other party does not have. -/
theorem Inv.hangup_passes (hi : v.Inv) (hs : (p, .hangup c r) ∈ v.flying)
    (hnot : v.phase (!p) = .idle ∨ v.callId (!p) ≠ c) (hsaid : Says new []) :
    ((v.taken p (.hangup c r)).moved (!p) (v.phase (!p)) (v.callId (!p)) new).Inv := by
  have hat : ∀ φ, φ ≠ .idle → ¬ (v.phase (!p) = φ ∧ v.callId (!p) = c) := by
    rintro φ hφ ⟨rfl, hid⟩
    exact hnot.elim hφ (fun h => h hid)
  refine hi.passes hs (c := c) rfl hsaid (fun o ho hsound => ?_)
  rcases Bool.eq_or_eq_not o p with rfl | rfl
  · have hhang : (v.picture o c).callerHangup := ⟨r, hs⟩
    obtain ⟨left, htaken⟩ := picture_taken_callerHangup (v := v) (p := o) (c := c) (r := r)
    rw [htaken]
    simpa [CallView.picture, hat] using hsound.callerHangupArrives left hhang
  · have hhang : (v.picture (!p) c).calleeHangup := ⟨r, by simpa using hs⟩
    obtain ⟨left, htaken⟩ := picture_taken_calleeHangup (v := v) (p := p) (c := c) (r := r)
    rw [htaken]
    simpa [CallView.picture, hat] using hsound.calleeHangupArrives left hhang

end

/-- **Where nothing is on its way, the parties agree.** -/
theorem Inv.agree (hi : v.Inv) (hquiet : v.flying = []) (hphase : v.phase p = .running) :
    v.phase (!p) = .running ∧ v.callId (!p) = v.callId p := by
  obtain ⟨o, ho⟩ := Option.ne_none_iff_exists'.mp (hi.roles.running p hphase)
  have hsound := hi.sound o _ ho
  rcases Bool.eq_or_eq_not o p with rfl | rfl
  · have htalks : (v.picture o (v.callId o)).callerTalks := ⟨hphase, rfl⟩
    simpa [CallView.picture, hquiet] using hsound.caller_live htalks
  · have htalks : (v.picture (!p) (v.callId p)).calleeTalks := by
      simpa [CallView.picture] using hphase
    simpa [CallView.picture, hquiet] using hsound.callee_live htalks

end CallView

end Paranoia
