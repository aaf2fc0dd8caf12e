import Mathlib.Algebra.Order.Ring.Int
import Mathlib.Data.List.Basic

/-!
# Calls that come while the application is in the background

The background service polls for calls. It keeps the last offer in the preferences, with the time and
the id of its call, and shows a banner; an interface that was on its way to the background hands over
an offer it still got. The application takes the offer when it opens, from the intent of the tap that
opened it if there was one, else from the preferences. A hang-up and a dismissal are to take the
offer back. The two processes remember apart from each other which calls they have shown.
-/

namespace Paranoia

/-- How long an offer rings, in milliseconds. -/
def callOfferTtl : Nat := 60000

/-- What an offer says of its call; the id may be empty. -/
structure Envelope where
  sender : String
  tsMs : Nat
  callId : String
  deriving DecidableEq

/-- The id that a call goes by. -/
def Envelope.id (env : Envelope) : String :=
  if env.callId = "" then env.sender ++ ":" ++ toString env.tsMs else env.callId

/-- Whether the call was not shown yet, and what is remembered after. -/
def noteSeen (seen : List String) (id : String) : Option (List String) :=
  let seen := if 500 < seen.length then [] else seen
  if id ∈ seen then none else some (id :: seen)

structure HandOff where
  /-- Since the device was started, in milliseconds. -/
  now : Nat
  prefOffer : Option Envelope
  prefTs : Nat
  prefCallId : String
  banner : Option Envelope
  /-- The offer in the intent of the activity. -/
  intent : Option Envelope
  seenByService : List String
  seenByUi : List String
  /-- The calls whose hang-up was processed, whose banner was dismissed, that were returned. -/
  cancelled : List String
  dismissed : List String
  returned : List String
  /-- The last offer that came, and when, as long as none of this has happened to it. -/
  due : Option (Envelope × Nat)

inductive HandOffLabel
  | elapse (millis : Nat)
  /-- `pollCalls` meets an offer; `shows` if the application is not in front and may notify. -/
  | offer (env : Envelope) (shows : Bool)
  /-- `pollCalls` meets a hang-up or a refusal. -/
  | hangup (id : String)
  | showIncomingCallFromUi (env : Envelope) (shows : Bool)
  /-- The button of the banner, which is a broadcast to `PollAlarmReceiver`, or a swipe. -/
  | dismissAlarm
  /-- The same action sent to the service itself. -/
  | dismissService
  /-- A tap on the banner takes it away, a tap on its answer button does not. -/
  | tap (answer : Bool)
  | takePendingCallOffer
  deriving DecidableEq

namespace HandOff

def init (now : Nat) : HandOff where
  now := now
  prefOffer := none
  prefTs := 0
  prefCallId := ""
  banner := none
  intent := none
  seenByService := []
  seenByUi := []
  cancelled := []
  dismissed := []
  returned := []
  due := none

def clearPrefs (w : HandOff) : HandOff :=
  { w with prefOffer := none, prefTs := 0, prefCallId := "" }

/-- Nothing is owed of a call any more. -/
def settle (w : HandOff) (id : String) : HandOff :=
  { w with due := w.due.filter (fun e => e.1.id ≠ id) }

def showIncomingCall (w : HandOff) (env : Envelope) (shows : Bool) : HandOff :=
  if shows then { w with banner := some env } else w

def offer (w : HandOff) (env : Envelope) (shows : Bool) : HandOff :=
  match noteSeen w.seenByService env.id with
  | none => w
  | some seen =>
      { w with seenByService := seen
               prefOffer := some env
               prefTs := w.now
               prefCallId := env.id
               due := some (env, w.now) }.showIncomingCall env shows

def hangup (w : HandOff) (id : String) : HandOff :=
  let w := { w.settle id with cancelled := id :: w.cancelled }
  if id ≠ "" ∧ id = w.prefCallId then { w.clearPrefs with banner := none } else w

/-- The id of the call is not kept here. -/
def showIncomingCallFromUi (w : HandOff) (env : Envelope) (shows : Bool) : HandOff :=
  match noteSeen w.seenByUi env.id with
  | none => w
  | some seen =>
      { w with seenByUi := seen
               prefOffer := some env
               prefTs := w.now
               due := some (env, w.now) }.showIncomingCall env shows

def dismissBanner (w : HandOff) (env : Envelope) : HandOff :=
  { w.settle env.id with banner := none, dismissed := env.id :: w.dismissed }

/-- What `takePendingCallOffer` returns. -/
def pendingCallOffer (w : HandOff) : Option Envelope :=
  match w.intent with
  | some env => some env
  | none =>
      if w.prefTs = 0 ∨ callOfferTtl < w.now - w.prefTs then none else w.prefOffer

def takePendingCallOffer (w : HandOff) : HandOff :=
  let cleared := if w.intent.isSome || w.prefOffer.isSome then w.clearPrefs else w
  { cleared with
    intent := none
    returned := (w.pendingCallOffer.map Envelope.id).toList ++ w.returned
    due := none }

def step (w : HandOff) : HandOffLabel → Option HandOff
  | .elapse millis => some { w with now := w.now + millis }
  | .offer env shows => some (w.offer env shows)
  | .hangup id => some (w.hangup id)
  | .showIncomingCallFromUi env shows => some (w.showIncomingCallFromUi env shows)
  | .dismissAlarm => w.banner.map w.dismissBanner
  | .dismissService => w.banner.map (fun env => (w.dismissBanner env).clearPrefs)
  | .tap answer =>
      w.banner.map (fun env =>
        { w with intent := some env, banner := if answer then some env else none })
  | .takePendingCallOffer => some w.takePendingCallOffer

/-! ## What the hand-off is for -/

/-- The call was cancelled or dismissed. -/
def Over (w : HandOff) (id : String) : Prop := id ∈ w.cancelled ∨ id ∈ w.dismissed

instance (w : HandOff) (id : String) : Decidable (w.Over id) :=
  inferInstanceAs (Decidable (_ ∨ _))

end HandOff

end Paranoia
