import Paranoia.Client.MediaSession
import Paranoia.Proof.TurnTable

/-!
# Shutdown signals

A relay loop is told to stop by a call that wakes only the futures there are. It has one while it
waits, a new one each time, and none before it first runs and while it forwards; and of a future
that is ready together with a datagram the datagram may win, and the future goes. A session has one
future for good once it has passed its first wait. A signal that comes when there is none is lost
(`signals_lost`), and one that comes in time is heard (`signals_heard`).
-/

namespace Paranoia

/-! ## Relay loops -/

namespace RelayLoop

variable {r r' : RelayLoop} {event : RelayEvent}

/-- Signalled, and waiting with a future that is not ready. -/
def Lost (r : RelayLoop) : Prop :=
  match r.point with
  | .select f => r.shutdown.Signalled ∧ ¬ f.Ready r.shutdown
  | _ => False

/-- A signal now is not lost. -/
def Listens (r : RelayLoop) : Prop :=
  match r.point with
  | .select _ => True
  | .ended => True
  | _ => False

/-- The loop takes a datagram with its future ready. -/
def Overhears (r : RelayLoop) : RelayEvent → Prop
  | .recv _ =>
      match r.point with
      | .select f => f.Ready r.shutdown
      | _ => False
  | _ => False

instance : DecidablePred Lost := fun r => by
  unfold Lost
  split <;> infer_instance

instance : DecidablePred Listens := fun r => by
  unfold Listens
  split <;> infer_instance

instance (r : RelayLoop) : DecidablePred r.Overhears := fun event => by
  unfold Overhears
  split
  · split <;> infer_instance
  · infer_instance

/-- Whoever has been signalled has ended or has a future that is ready. -/
def Hears (r : RelayLoop) : Prop :=
  match r.point with
  | .select f => f.Before r.shutdown ∧ (r.shutdown.Signalled → f.Ready r.shutdown)
  | .ended => True
  | _ => ¬ r.shutdown.Signalled

theorem Hears.not_lost (h : r.Hears) : ¬ r.Lost := by
  obtain ⟨client, socket, shutdown, point⟩ := r
  cases point with
  | select f => exact fun hlost => hlost.2 (h.2 hlost.1)
  | spawned => exact fun hlost => hlost
  | forward peer => exact fun hlost => hlost
  | ended => exact fun hlost => hlost

/-- A signal is heard where the loop listens. -/
theorem Hears.signal (h : r.Hears) (hl : r.Listens) :
    Hears { r with shutdown := r.shutdown.notifyWaiters } := by
  obtain ⟨client, socket, shutdown, point⟩ := r
  cases point with
  | select f => exact ⟨h.1.notifyWaiters, fun _ => h.1.ready⟩
  | ended => trivial
  | spawned => exact hl.elim
  | forward peer => exact hl.elim

theorem hears_notified {client socket : SocketAddr} {shutdown : Notify}
    (h : ¬ shutdown.Signalled) : Hears ⟨client, socket, shutdown, .select shutdown.notified⟩ :=
  ⟨Notified.before_notified, fun hs => absurd hs h⟩

theorem Hears.step (h : r.Hears) (hok : ¬ r.Overhears event) (hs : r.step event = some r') :
    r'.Hears := by
  obtain ⟨client, socket, shutdown, point⟩ := r
  cases point with
  | spawned =>
      cases event <;> first | (cases hs; exact hears_notified h) | cases hs
  | select f =>
      cases event with
      | recv peer =>
          cases hs
          exact fun hsig => hok (h.2 hsig)
      | recvFailed =>
          cases hs
          trivial
      | stop =>
          obtain ⟨-, hs⟩ := Option.ite_none_right_eq_some.mp hs
          cases hs
          trivial
      | run => cases hs
      | sent => cases hs
  | forward peer =>
      cases event <;> first | (cases hs; exact hears_notified h) | cases hs
  | ended => cases event <;> cases hs

end RelayLoop

namespace TurnWorld

variable {cfg : TurnConfig} {w w' : TurnWorld} {l : TurnLabel} {a : Allocation}
variable {clients : List SocketAddr} {id : Nat} {r : RelayLoop}

/-- The allocations a step takes out of the table. -/
def dropped (w : TurnWorld) : TurnLabel → List Allocation
  | .lookup =>
      match w.listener with
      | .lookup client now => (w.table.get client).toList.filter (fun a => a.expiresAt ≤ now)
      | _ => []
  | .refresh client lifetime => if lifetime = 0 then (w.table.get client).toList else []
  | .collect => w.listed.filterMap w.table.get
  | _ => []

/-- Relay loops are signalled while they listen, and take no datagram with their future ready. -/
def InTime (w : TurnWorld) (l : TurnLabel) : Prop :=
  (∀ a ∈ w.dropped l, ∀ r ∈ w.relays[a.shutdown]?, r.Listens)
    ∧ match l with
      | .relay id event => ∀ r ∈ w.relays[id]?, ¬ r.Overhears event
      | _ => True

instance (w : TurnWorld) : DecidablePred w.InTime := fun l =>
  match l with
  | .tick .. | .allocate .. | .lookup | .bind .. | .insert | .refresh .. | .send .. | .collect
  | .relay .. => by unfold InTime; infer_instance

def Hear (w : TurnWorld) : Prop := ∀ (id : Nat) (r : RelayLoop), w.relays[id]? = some r → r.Hears

/-- What a signal does to the loops. -/
theorem relays_signal (h : (w.signal a.shutdown).relays[id]? = some r) :
    w.relays[id]? = some r ∨ ∃ r₀, w.relays[id]? = some r₀ ∧ id = a.shutdown
      ∧ r = { r₀ with shutdown := r₀.shutdown.notifyWaiters } := by
  unfold signal at h
  dsimp only at h
  rw [List.getElem?_modify] at h
  split at h
  · rename_i hid
    obtain ⟨r₀, hr₀, rfl⟩ := Option.map_eq_some_iff.mp h
    exact .inr ⟨r₀, hr₀, hid.symm, rfl⟩
  · exact .inl (by simpa using h)

theorem Hear.drop (h : w.Hear) (hl : ∀ r ∈ w.relays[a.shutdown]?, r.Listens) : (w.drop a).Hear := by
  intro id r hr
  rcases relays_signal (w := { w with table := w.table.remove a }) hr with hr | ⟨r₀, hr₀, rfl, rfl⟩
  · exact h id r hr
  · exact (h _ r₀ hr₀).signal (hl r₀ hr₀)

theorem Hear.removeAll (h : w.Hear)
    (hl : ∀ a ∈ clients.filterMap w.table.get, ∀ r ∈ w.relays[a.shutdown]?, r.Listens) :
    (w.removeAll clients).Hear := by
  induction clients generalizing w with
  | nil => exact h
  | cons client rest ih =>
      unfold TurnWorld.removeAll
      split
      · rename_i a ha
        refine ih (h.drop (hl a ?_)) (fun b hb r hr => ?_)
        · rw [List.filterMap_cons, ha]
          exact List.mem_cons_self
        · -- what is left of the table was there before, and a signal does not stop a loop listening
          obtain ⟨c, hc, hget⟩ := List.mem_filterMap.mp hb
          obtain ⟨hmem, hclient⟩ := AllocTable.get_eq_some hget
          have hold := AllocTable.get_of_mem (AllocTable.mem_remove.mp hmem).1
          rw [hclient] at hold
          have hb' : b ∈ (client :: rest).filterMap w.table.get :=
            List.mem_filterMap.mpr ⟨c, List.mem_cons_of_mem _ hc, hold⟩
          rcases relays_signal (w := { w with table := w.table.remove a }) hr with
            hr | ⟨r₀, hr₀, -, rfl⟩
          · exact hl b hb' r hr
          · exact hl b hb' r₀ hr₀
      · rename_i hnone
        refine ih h (fun b hb => hl b ?_)
        rw [List.filterMap_cons, hnone]
        exact hb

theorem Hear.step (h : w.Hear) (hok : w.InTime l) (hs : w.StepCase cfg l w') : w'.Hear := by
  obtain ⟨hdrop, hrelay⟩ := hok
  cases hs with
  | tick => exact h
  | allocate => exact h
  | lookup hp =>
      rw [dropped, hp] at hdrop
      unfold stepLookup
      split
      · rename_i a ha
        split
        · exact h
        · rename_i hexpired
          refine h.drop (hdrop a ?_)
          dsimp only
          rw [ha]
          simpa using hexpired
      · exact h
  | bound hp hb =>
      intro id r hr
      have hr : (w.relays ++ [_])[id]? = some r := hr
      rw [List.getElem?_append] at hr
      split at hr
      · exact h id r hr
      · obtain ⟨hlt, rfl⟩ := List.getElem?_eq_some_iff.mp hr
        rw [List.getElem_singleton]
        exact Nat.lt_irrefl 0
  | unbound => exact h
  | insert => exact h
  | refresh =>
      unfold stepRefresh
      split
      · rename_i hzero
        rw [dropped, if_pos hzero] at hdrop
        split
        · rename_i a ha
          refine h.drop (hdrop a ?_)
          rw [ha]
          exact List.mem_singleton_self a
        · exact h
      · exact h
  | send =>
      unfold stepSend
      split <;> exact h
  | collect =>
      unfold stepCollect
      split
      · exact h
      · split <;> exact h
      · rename_i clients hcollector
        rw [dropped, listed, hcollector] at hdrop
        exact h.removeAll hdrop
  | relay hr hs =>
      rename_i id event r r'
      intro id' r'' hr''
      have hr'' : (w.relays.set id r')[id']? = some r'' := hr''
      rw [List.getElem?_set] at hr''
      split at hr''
      · split at hr''
        · cases hr''
          exact (h id r hr).step (hrelay r hr) hs
        · cases hr''
      · exact h id' r'' hr''

theorem hear_reachable {now : Nat} (hr : Lts.Reach (step cfg) InTime (init now) w) : w.Hear :=
  hr.invariant (fun _ _ h => by cases h) (fun _ _ _ _ h hok hs => h.step hok (step_cases hs))

end TurnWorld

/-! ## The task of a session -/

namespace SessionTask

variable {t t' : SessionTask} {l : TaskLabel}

/-- Signalled, and waiting with a future that is not ready. -/
def Lost (t : SessionTask) : Prop :=
  match t.point with
  | .select f => t.shutdown.Signalled ∧ ¬ f.Ready t.shutdown
  | _ => False

instance : DecidablePred Lost := fun t => by
  unfold Lost
  split <;> infer_instance

/-- The handle signals once the future has been made. -/
def InTime (t : SessionTask) : TaskLabel → Prop
  | .shutdown => t.point ≠ .starting
  | .join => t.point ≠ .starting
  | _ => True

instance (t : SessionTask) : DecidablePred t.InTime := fun l => by
  cases l <;> unfold InTime <;> infer_instance

/-- The future was made before any signal. -/
def Hears (t : SessionTask) : Prop :=
  match t.point with
  | .starting => ¬ t.shutdown.Signalled
  | .preparing f => f.seen = 0
  | .select f => f.seen = 0
  | .branch f => f.seen = 0
  | .ended => True

theorem Hears.not_lost (h : t.Hears) : ¬ t.Lost := by
  obtain ⟨shutdown, point⟩ := t
  cases point with
  | select f =>
      rintro ⟨hsignalled, hready⟩
      refine hready ?_
      rw [Notified.Ready, show f.seen = 0 from h]
      exact hsignalled
  | starting => exact fun hlost => hlost
  | preparing f => exact fun hlost => hlost
  | branch f => exact fun hlost => hlost
  | ended => exact fun hlost => hlost

/-- A signal leaves the future alone. -/
theorem Hears.signal (h : t.Hears) (hpoint : t.point ≠ .starting) :
    Hears { t with shutdown := t.shutdown.notifyWaiters } := by
  obtain ⟨shutdown, point⟩ := t
  cases point with
  | starting => exact absurd rfl hpoint
  | preparing f => exact h
  | select f => exact h
  | branch f => exact h
  | ended => trivial

theorem Hears.step (h : t.Hears) (hok : t.InTime l) (hs : t.step l = some t') : t'.Hears := by
  obtain ⟨shutdown, point⟩ := t
  cases l with
  | shutdown => cases hs; exact h.signal hok
  | join => cases hs; exact h.signal hok
  | start =>
      cases point <;> cases hs
      exact Nat.eq_zero_of_not_pos h
  | enter => cases point <;> cases hs; exact h
  | serve => cases point <;> cases hs; exact h
  | served => cases point <;> cases hs; exact h
  | closed => cases point <;> cases hs <;> trivial
  | stop =>
      cases point with
      | select f =>
          obtain ⟨-, hs⟩ := Option.ite_none_right_eq_some.mp hs
          cases hs
          trivial
      | starting => cases hs
      | preparing f => cases hs
      | branch f => cases hs
      | ended => cases hs

theorem hears_init : Hears init := Nat.lt_irrefl 0

theorem hears_reachable (hr : Lts.Reach step InTime init t) : t.Hears :=
  hr.invariant hears_init (fun _ _ _ _ h hok hs => h.step hok hs)

end SessionTask

/-! ## Both -/

/-- **Signals that come in time are heard.** As long as relay loops are signalled while they listen
and take no datagram with their future ready, and a session once its future has been made, nobody
who was signalled waits with a future that is not ready. -/
theorem signals_heard {cfg : TurnConfig} {now : Nat} {w : TurnWorld} {t : SessionTask}
    (hw : Lts.Reach (TurnWorld.step cfg) TurnWorld.InTime (.init now) w)
    (ht : Lts.Reach SessionTask.step SessionTask.InTime .init t) :
    (∀ (id : Nat) (r : RelayLoop), w.relays[id]? = some r → ¬ r.Lost) ∧ ¬ t.Lost :=
  ⟨fun id r hr => (TurnWorld.hear_reachable hw id r hr).not_lost,
    (SessionTask.hears_reachable ht).not_lost⟩

section Example

open TurnWorld

/-- A client allocates, a datagram comes in for it, and before that is forwarded the client closes
the allocation. -/
def closedRun : List TurnLabel :=
  [.allocate someClient, .lookup, .bind (some (relayAt 50000)), .insert, .relay 0 .run]

def lateCloseRun : List TurnLabel :=
  closedRun ++ [.relay 0 (.recv someClient), .refresh someClient 0, .relay 0 .sent]

/-- The loop waits on, out of the table; and a session that was told to stop before it ran waits
on too. -/
theorem signals_lost :
    (∃ w r, Lts.exec (TurnWorld.step localConfig) (.init 0) lateCloseRun = some w
      ∧ w.relays[0]? = some r ∧ r.Lost ∧ w.table.byClient.rows = [])
    ∧ ∃ t, Lts.exec SessionTask.step .init [.join, .start, .enter] = some t ∧ t.Lost :=
  have h : (Lts.exec (TurnWorld.step localConfig) (.init 0) lateCloseRun).isSome = true := by
    decide +kernel
  ⟨⟨_, ⟨someClient, relayAt 50000, ⟨1⟩, .select ⟨1⟩⟩, Lts.exec_getD h, by decide +kernel,
    by decide +kernel, by decide +kernel⟩, _, rfl, by decide⟩

/-- Both are told in time. -/
theorem signals_heard_closedRun :
    (∃ r, ((Lts.execWhile (TurnWorld.step localConfig) TurnWorld.InTime (.init 0)
        (closedRun ++ [.refresh someClient 0])).getD (.init 0)).relays[0]? = some r
      ∧ r.shutdown.Signalled ∧ ¬ r.Lost)
    ∧ ¬ ((Lts.execWhile SessionTask.step SessionTask.InTime .init
        [.start, .enter, .serve, .join, .served]).getD .init).Lost := by
  have hw : (Lts.execWhile (TurnWorld.step localConfig) TurnWorld.InTime (.init 0)
      (closedRun ++ [.refresh someClient 0])).isSome = true := by decide +kernel
  have ht : (Lts.execWhile SessionTask.step SessionTask.InTime .init
      [.start, .enter, .serve, .join, .served]).isSome = true := by decide
  have hr : ((Lts.execWhile (TurnWorld.step localConfig) TurnWorld.InTime (.init 0)
      (closedRun ++ [.refresh someClient 0])).getD (.init 0)).relays[0]?
        = some ⟨someClient, relayAt 50000, ⟨1⟩, .select ⟨0⟩⟩ := by decide +kernel
  have h := signals_heard (Lts.reach_getD hw) (Lts.reach_getD ht)
  exact ⟨⟨⟨someClient, relayAt 50000, ⟨1⟩, .select ⟨0⟩⟩, hr, by decide +kernel, h.1 0 _ hr⟩, h.2⟩

end Example

end Paranoia
