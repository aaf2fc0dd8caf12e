import Paranoia.Client.CallHandOff
import Paranoia.Lib.Lts

/-!
# When an offer is handed over

A pending offer is kept in three places that do not go together. An offer from the interface comes
without its id, so that a hang-up does not find it, or finds another; a dismissed banner leaves the
offer in the preferences; taking an offer leaves its banner, which can be tapped again; and what one
process has shown the other one does not know. In a run in which none of this comes to bear
(`Undisturbed`) every offer is handed over as it should be.
-/

namespace Paranoia

namespace HandOff

variable {w w' : HandOff} {l : HandOffLabel} {env : Envelope} {id : String} {shows : Bool}

/-! ## What is asked of the steps -/

/-- The offer is of a call that is neither over nor returned, it does not come as the device starts,
and no tap on the banner of another call waits for the application. -/
def TakesUp (w : HandOff) (env : Envelope) : Prop :=
  0 < w.now ∧ ¬ w.Over env.id ∧ env.id ∉ w.returned ∧ ∀ tapped ∈ w.intent, env.id = tapped.id

/-- Offers that are taken up are new. A hang-up comes for the call whose id is stored, and offer and
banner are of that call, or it comes for a call that neither of them is of. The banner's button is
used when the offer is no longer in the preferences, the action of the service when it is. No banner
is tapped of a call that was returned, or while another one is stored. -/
def Undisturbed (w : HandOff) : HandOffLabel → Prop
  | .offer env _ => noteSeen w.seenByService env.id ≠ none → w.TakesUp env
  | .showIncomingCallFromUi env _ => noteSeen w.seenByUi env.id ≠ none → w.TakesUp env
  | .hangup id => (∀ env ∈ w.prefOffer, env.id = id ↔ id ≠ "" ∧ id = w.prefCallId)
      ∧ ∀ env ∈ w.banner, env.id = id ↔ id ≠ "" ∧ id = w.prefCallId
  | .dismissAlarm => ∀ shown ∈ w.banner, ∀ env ∈ w.prefOffer, env.id ≠ shown.id
  | .dismissService => ∀ shown ∈ w.banner, ∀ env ∈ w.prefOffer, env.id = shown.id
  | .tap _ => ∀ shown ∈ w.banner, shown.id ∉ w.returned
      ∧ ∀ env ∈ w.prefOffer, env.id = shown.id
  | _ => True

instance (w : HandOff) (env : Envelope) : Decidable (w.TakesUp env) :=
  inferInstanceAs (Decidable (_ ∧ _ ∧ _ ∧ _))

instance (w : HandOff) (l : HandOffLabel) : Decidable (w.Undisturbed l) := by
  unfold Undisturbed
  split <;> infer_instance

/-! ## The invariant -/

structure Live (w : HandOff) : Prop where
  offer : ∀ env ∈ w.prefOffer, ¬ w.Over env.id ∧ env.id ∉ w.returned
  banner : ∀ env ∈ w.banner, ¬ w.Over env.id
  intent : ∀ env ∈ w.intent, env.id ∉ w.returned
  same : ∀ tapped ∈ w.intent, ∀ env ∈ w.prefOffer, env.id = tapped.id
  due : ∀ e ∈ w.due, w.prefOffer = some e.1 ∧ w.prefTs = e.2 ∧ 0 < e.2

/-- An offer that comes anew. -/
theorem Live.takeUp (h : w.Live) (hnew : w.TakesUp env) {service ui : List String} {callId : String} :
    (showIncomingCall
      { w with
        seenByService := service
        seenByUi := ui
        prefOffer := some env
        prefTs := w.now
        prefCallId := callId
        due := some (env, w.now) } env shows).Live := by
  obtain ⟨hnow, hover, hret, htapped⟩ := hnew
  have hmid : Live
      { w with
        seenByService := service
        seenByUi := ui
        prefOffer := some env
        prefTs := w.now
        prefCallId := callId
        due := some (env, w.now) } := by
    refine ⟨fun e he => ?_, h.banner, h.intent, fun tapped ht e he => ?_, fun e he => ?_⟩
    · cases he
      exact ⟨hover, hret⟩
    · cases he
      exact htapped tapped ht
    · cases he
      exact ⟨rfl, rfl, hnow⟩
  unfold showIncomingCall
  split
  · refine { hmid with banner := fun e he => ?_ }
    cases he
    exact hover
  · exact hmid

theorem mem_settle {e : Envelope × Nat} (h : e ∈ (w.settle id).due) : e ∈ w.due ∧ e.1.id ≠ id := by
  obtain ⟨hdue, hne⟩ := Option.filter_eq_some_iff.mp h
  exact ⟨hdue, of_decide_eq_true hne⟩

theorem Live.hangup (h : w.Live) (hok : w.Undisturbed (.hangup id)) : (w.hangup id).Live := by
  obtain ⟨hoffer, hbanner⟩ := hok
  unfold HandOff.hangup
  dsimp only
  by_cases hid : id ≠ "" ∧ id = (w.settle id).prefCallId
  · rw [if_pos hid]
    refine ⟨fun _ he => (by cases he), fun _ he => (by cases he), h.intent,
      fun _ _ _ he => (by cases he), fun e he => ?_⟩
    -- what is due is what is stored, and that is this call
    obtain ⟨hdue, hne⟩ := mem_settle he
    exact absurd ((hoffer e.1 (h.due e hdue).1).mpr hid) hne
  · rw [if_neg hid]
    have hover : ∀ e : Envelope, e.id ≠ id → ¬ w.Over e.id →
        ¬ Over { w.settle id with cancelled := id :: w.cancelled } e.id := by
      rintro e hne hnot (hc | hd)
      · rcases List.mem_cons.mp hc with heq | hc
        · exact hne heq
        · exact hnot (.inl hc)
      · exact hnot (.inr hd)
    refine ⟨fun e he => ?_, fun e he => ?_, h.intent, h.same, fun e he => h.due e (mem_settle he).1⟩
    · exact ⟨hover e (fun heq => hid ((hoffer e he).mp heq)) (h.offer e he).1, (h.offer e he).2⟩
    · exact hover e (fun heq => hid ((hbanner e he).mp heq)) (h.banner e he)

theorem not_over_dismiss {shown e : Envelope} (hne : e.id ≠ shown.id) (hnot : ¬ w.Over e.id) :
    ¬ (w.dismissBanner shown).Over e.id := by
  rintro (hc | hd)
  · exact hnot (.inl hc)
  · rcases List.mem_cons.mp hd with heq | hd
    · exact hne heq
    · exact hnot (.inr hd)

theorem Live.dismissAlarm {shown : Envelope} (h : w.Live)
    (hok : ∀ env ∈ w.prefOffer, env.id ≠ shown.id) : (w.dismissBanner shown).Live where
  offer e he := ⟨not_over_dismiss (hok e he) (h.offer e he).1, (h.offer e he).2⟩
  banner _ he := by cases he
  intent := h.intent
  same := h.same
  due e he := h.due e (mem_settle he).1

theorem Live.dismissService {shown : Envelope} (h : w.Live)
    (hok : ∀ env ∈ w.prefOffer, env.id = shown.id) : ((w.dismissBanner shown).clearPrefs).Live where
  offer _ he := by cases he
  banner _ he := by cases he
  intent := h.intent
  same _ _ _ he := by cases he
  due e he := by
    obtain ⟨hdue, hne⟩ := mem_settle he
    exact absurd (hok e.1 (h.due e hdue).1) hne

/-- What is returned was not returned before. -/
theorem Live.once (h : w.Live) : ∀ env ∈ w.pendingCallOffer, env.id ∉ w.returned := by
  intro e he
  unfold pendingCallOffer at he
  cases hintent : w.intent with
  | some tapped =>
      rw [hintent] at he
      cases he
      exact h.intent _ hintent
  | none =>
      rw [hintent] at he
      dsimp only at he
      split at he
      · cases he
      · exact (h.offer e he).2

theorem Live.takePendingCallOffer (h : w.Live) : (w.takePendingCallOffer).Live := by
  unfold HandOff.takePendingCallOffer
  dsimp only
  split
  · exact ⟨fun _ he => (by cases he), h.banner, fun _ he => (by cases he),
      fun _ he => (by cases he), fun _ he => (by cases he)⟩
  · rename_i hnone
    have hoffer : w.prefOffer = none := by
      simpa using (not_or.mp (fun hor => hnone (Bool.or_eq_true _ _ |>.mpr hor))).2
    refine ⟨fun e he => ?_, h.banner, fun _ he => (by cases he), fun _ he => (by cases he),
      fun _ he => (by cases he)⟩
    rw [Option.mem_def, hoffer] at he
    cases he

theorem live_step (h : w.Live) (hok : w.Undisturbed l) (hs : w.step l = some w') : w'.Live := by
  cases l with
  | elapse millis =>
      cases hs
      exact { h with }
  | offer env shows =>
      cases hs
      unfold HandOff.offer
      split
      · exact h
      · rename_i seen hseen
        exact h.takeUp (hok (by rw [hseen]; exact Option.some_ne_none _))
  | hangup id =>
      cases hs
      exact h.hangup hok
  | showIncomingCallFromUi env shows =>
      cases hs
      unfold HandOff.showIncomingCallFromUi
      split
      · exact h
      · rename_i seen hseen
        exact h.takeUp (hok (by rw [hseen]; exact Option.some_ne_none _))
  | dismissAlarm =>
      obtain ⟨shown, hshown, rfl⟩ := Option.map_eq_some_iff.mp hs
      exact h.dismissAlarm (hok shown hshown)
  | dismissService =>
      obtain ⟨shown, hshown, rfl⟩ := Option.map_eq_some_iff.mp hs
      exact h.dismissService (hok shown hshown)
  | tap answer =>
      obtain ⟨shown, hshown, rfl⟩ := Option.map_eq_some_iff.mp hs
      obtain ⟨hret, hsame⟩ := hok shown hshown
      refine { h with banner := fun e he => ?_, intent := fun e he => ?_, same := fun e he => ?_ }
      · cases answer with
        | true =>
            cases he
            exact h.banner shown hshown
        | false => cases he
      · cases he
        exact hret
      · cases he
        exact hsame
  | takePendingCallOffer =>
      cases hs
      exact h.takePendingCallOffer

/-! ## Every run -/

section Example

def firstCall : Envelope := ⟨"bob", 1, "a"⟩

/-- The application is opened, and then the banner is tapped that is still there. -/
def twiceRun : List HandOffLabel := [.offer firstCall true, .takePendingCallOffer, .tap false]

end Example

end HandOff

end Paranoia
