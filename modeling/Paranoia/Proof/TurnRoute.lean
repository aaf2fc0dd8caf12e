import Mathlib.Data.List.Nodup
import Paranoia.Client.MediaSession

/-!
# The TURN route of a session

The relay, how long it lasts and when to ask for more change with an answer to an outstanding
request, and with the timer, which when it asks for more puts off the next time it does; a response
ends the request it answers, and who asks is answered once at most (`route_integrity`). What a
success response to a refresh that is not outstanding does is left open: the code takes it all the
same (`refreshed_unasked`).
-/

namespace Paranoia

/-- The part of a route that a server grants. -/
def TurnRoute.lease (r : TurnRoute) : Option SocketAddr × Option SocketAddr × Nat × Option Nat :=
  (r.server, r.relayed, r.allocationLifetime, r.nextRefreshAt)

/-- Relay and server. -/
def TurnRoute.relay (r : TurnRoute) : Option SocketAddr × Option SocketAddr := (r.server, r.relayed)

namespace TurnSession

variable {s s' : TurnSession} {l : SessionLabel} {tid : TransactionId} {m : Turn.Message}
variable {data : List UInt8} {p : TurnPending}

/-! ## What changes the route -/

/-- A success response of the method, to a request with the identifier. -/
def IsSuccess (data : List UInt8) (method : UInt16) (m : Turn.Message) : Prop :=
  controlMessage data = some m ∧ m.header.method = method ∧ m.header.cls = .successResponse

/-- A response to a request for a relay, for more time or for a permission. -/
def IsAnswer (data : List UInt8) (m : Turn.Message) : Prop :=
  controlMessage data = some m
    ∧ (m.header.cls = .successResponse ∨ m.header.cls = .errorResponse)
    ∧ (m.header.method = Turn.methodAllocate ∨ m.header.method = Turn.methodRefresh
      ∨ m.header.method = Turn.methodCreatePermission)

inductive RouteChange (s s' : TurnSession) : SessionLabel → Prop where
  /-- Nothing changes. -/
  | same {l : SessionLabel} (h : s'.turnRoute.lease = s.turnRoute.lease) : RouteChange s s' l
  /-- A relay, from the answer to a request for it. -/
  | allocated {data : List UInt8} {m : Turn.Message} {server relayed : SocketAddr}
      {reply deadline : Nat} (hm : IsSuccess data Turn.methodAllocate m)
      (hp : s.pending m.header.transactionId = some (.allocate server reply deadline))
      (hroute : s'.turnRoute.relay = (some server, some relayed))
      (hgone : s'.pending m.header.transactionId = none) : RouteChange s s' (.datagram data)
  /-- More time for the relay there is, from the answer to a request for it. -/
  | refreshed {data : List UInt8} {m : Turn.Message} {deadline : Nat}
      (hm : IsSuccess data Turn.methodRefresh m)
      (hp : s.pending m.header.transactionId = some (.refresh deadline))
      (hroute : s'.turnRoute.relay = s.turnRoute.relay)
      (hgone : s'.pending m.header.transactionId = none) : RouteChange s s' (.datagram data)
  /-- The timer has sent such a request, and will not send the next one yet. -/
  | postponed {tid permissionTid : TransactionId} {permissionSent : Bool} {refreshAt : Nat}
      (hdue : s.turnRoute.nextRefreshAt = some refreshAt) (hle : refreshAt ≤ s.now)
      (hroute : s'.turnRoute.relay = s.turnRoute.relay)
      (hlife : s'.turnRoute.allocationLifetime = s.turnRoute.allocationLifetime)
      (hpending : s'.pending tid ≠ none) :
      RouteChange s s' (.turnRefresh tid true permissionTid permissionSent)

/-- A success response to a refresh that is not outstanding. -/
def Unasked (s : TurnSession) (l : SessionLabel) : Prop :=
  ∃ data m, l = .datagram data ∧ IsSuccess data Turn.methodRefresh m
    ∧ ∀ deadline, s.pending m.header.transactionId ≠ some (.refresh deadline)

@[simp] theorem turnRoute_answer {reply : Nat} {a : SessionReply} :
    (s.answer reply a).turnRoute = s.turnRoute := rfl

@[simp] theorem turnRoute_removePending : (s.removePending tid).turnRoute = s.turnRoute := rfl

theorem pending_removePending : (s.removePending tid).pending tid = none := by
  unfold pending removePending
  rw [Option.map_eq_none_iff, Table.find?_eq_none]
  intro e he
  have := (Table.mem_deleteWhere.mp he).2
  exact this

theorem turnRoute_timeOut : (s.timeOut p).turnRoute = s.turnRoute := by
  cases p <;> rfl

theorem turnRoute_expire {es : List (TransactionId × TurnPending)} :
    (s.expire es).turnRoute = s.turnRoute := by
  induction es generalizing s with
  | nil => rfl
  | cons e es ih => rw [expire, ih, turnRoute_timeOut, turnRoute_removePending]

theorem turnRoute_stunExpire {es : List StunPending} :
    (s.stunExpire es).turnRoute = s.turnRoute := by
  induction es generalizing s with
  | nil => rfl
  | cons e es ih =>
      rw [stunExpire, ih]
      rfl

theorem lease_askPermission {sent : Bool} :
    (s.askPermission tid sent).turnRoute.lease = s.turnRoute.lease := by
  unfold askPermission
  split <;> rfl

theorem turnRoute_bindingSuccess : (s.bindingSuccess data tid).turnRoute = s.turnRoute := by
  unfold bindingSuccess
  split
  · split <;> rfl
  · rfl

theorem routeChange_allocateSuccess (hm : IsSuccess data Turn.methodAllocate m) :
    RouteChange s (s.allocateSuccess m) (.datagram data) := by
  unfold allocateSuccess
  dsimp only
  split
  · rename_i server reply deadline hp
    split
    · exact .allocated hm hp rfl pending_removePending
    · exact .same rfl
  · exact .same rfl

theorem routeChange_refreshSuccess (hm : IsSuccess data Turn.methodRefresh m)
    (hasked : ¬ s.Unasked (.datagram data)) :
    RouteChange s (s.refreshSuccess m) (.datagram data) := by
  have hp : ∃ deadline, s.pending m.header.transactionId = some (.refresh deadline) := by
    by_contra hnone
    exact hasked ⟨data, m, rfl, hm, fun deadline h => hnone ⟨deadline, h⟩⟩
  obtain ⟨deadline, hp⟩ := hp
  unfold refreshSuccess
  dsimp only
  split
  · split
    · exact .refreshed hm hp rfl pending_removePending
    · exact .same rfl
  · exact .same rfl

theorem turnRoute_allocateError : (s.allocateError m).turnRoute = s.turnRoute := by
  unfold allocateError
  dsimp only
  split <;> rfl

theorem routeChange_control (hm : controlMessage data = some m)
    (hasked : ¬ s.Unasked (.datagram data)) : RouteChange s (s.control data m) (.datagram data) := by
  unfold control
  dsimp only
  split
  · rename_i hcls
    by_cases hb : m.header.method = Turn.methodBinding
    · rw [if_pos hb]
      exact .same (by rw [turnRoute_bindingSuccess])
    rw [if_neg hb]
    by_cases ha : m.header.method = Turn.methodAllocate
    · rw [if_pos ha]
      exact routeChange_allocateSuccess ⟨hm, ha, hcls⟩
    rw [if_neg ha]
    by_cases hr : m.header.method = Turn.methodRefresh
    · rw [if_pos hr]
      exact routeChange_refreshSuccess ⟨hm, hr, hcls⟩ hasked
    rw [if_neg hr]
    split <;> exact .same rfl
  · split
    · exact .same rfl
    · split
      · exact .same (by rw [turnRoute_allocateError])
      · split <;> exact .same rfl
  · exact .same rfl

/-- A response ends the request it answers, whatever else it says. -/
theorem pending_control (hm : IsAnswer data m) :
    (s.control data m).pending m.header.transactionId = none := by
  have hgone : (s.removePending m.header.transactionId).pending m.header.transactionId = none :=
    pending_removePending
  have hallocate : (s.allocateSuccess m).pending m.header.transactionId = none := by
    unfold allocateSuccess
    dsimp only
    split
    · split <;> exact hgone
    · exact hgone
  have hrefresh : (s.refreshSuccess m).pending m.header.transactionId = none := by
    unfold refreshSuccess
    dsimp only
    split
    · split <;> exact hgone
    · exact hgone
  have herror : (s.allocateError m).pending m.header.transactionId = none := by
    unfold allocateError
    dsimp only
    split <;> exact hgone
  obtain ⟨-, hcls, hmethod⟩ := hm
  unfold control
  rcases hcls with hcls | hcls <;> rcases hmethod with hmethod | hmethod | hmethod <;>
    rw [hcls, hmethod]
  · exact hallocate
  · exact hrefresh
  · exact hgone
  · exact herror
  · exact hgone
  · exact hgone

theorem lease_permissionTick {sent : Bool} :
    (s.permissionTick tid sent).turnRoute.lease = s.turnRoute.lease := by
  unfold permissionTick
  split
  · split
    · exact lease_askPermission
    · rfl
  · rfl

theorem outstanding_insertPending {tid' : TransactionId} (h : tid' = tid ∨ s.pending tid' ≠ none) :
    (s.insertPending tid p).pending tid' ≠ none := by
  unfold pending insertPending at *
  rw [ne_eq, Option.map_eq_none_iff, Table.find?_eq_none] at *
  intro hall
  by_cases htid : tid' = tid
  · subst htid
    have := hall (tid', p) (Table.mem_insertOrReplace.mpr (.inr rfl))
    simp at this
  · refine (h.resolve_left htid) (fun e he => ?_)
    by_cases hkey : e.1 = tid
    · rw [hkey]
      simpa using fun h : tid = tid' => htid h.symm
    · exact hall e (Table.mem_insertOrReplace.mpr (.inl ⟨he, hkey⟩))

theorem outstanding_permissionTick {sent : Bool} {tid' : TransactionId} (h : s.pending tid' ≠ none) :
    (s.permissionTick tid sent).pending tid' ≠ none := by
  unfold permissionTick
  split
  · split
    · unfold askPermission
      split
      · exact outstanding_insertPending (.inr h)
      · exact h
    · exact h
  · exact h

theorem refreshTick_cases {sent : Bool} :
    (s.refreshTick tid sent).turnRoute.lease = s.turnRoute.lease
    ∨ sent = true ∧ (∃ refreshAt, s.turnRoute.nextRefreshAt = some refreshAt ∧ refreshAt ≤ s.now)
      ∧ (s.refreshTick tid sent).turnRoute.relay = s.turnRoute.relay
      ∧ (s.refreshTick tid sent).turnRoute.allocationLifetime = s.turnRoute.allocationLifetime
      ∧ (s.refreshTick tid sent).pending tid ≠ none := by
  unfold refreshTick
  split
  · rename_i server refreshAt hserver hrefresh
    split
    · rename_i hdue
      exact .inr ⟨hdue.2, ⟨refreshAt, hrefresh, hdue.1⟩, rfl, rfl,
        outstanding_insertPending (.inl rfl)⟩
    · exact .inl rfl
  · exact .inl rfl

theorem routeChange_turnRefresh {sent permissionSent : Bool} {permissionTid : TransactionId} :
    RouteChange s ((s.refreshTick tid sent).permissionTick permissionTid permissionSent)
      (.turnRefresh tid sent permissionTid permissionSent) := by
  have hperm := @lease_permissionTick (s.refreshTick tid sent) permissionTid permissionSent
  rcases @refreshTick_cases s tid sent with
    h | ⟨hsent, ⟨refreshAt, hdue, hle⟩, hrelay, hlife, hpending⟩
  · exact .same (hperm.trans h)
  · subst hsent
    simp only [TurnRoute.lease, Prod.mk.injEq] at hperm
    obtain ⟨hserver, hrelayed, hlife', -⟩ := hperm
    exact .postponed hdue hle ((Prod.ext hserver hrelayed).trans hrelay) (hlife'.trans hlife)
      (outstanding_permissionTick hpending)

theorem routeChange_step (h : s.step l = some s') (hasked : ¬ s.Unasked l) : RouteChange s s' l := by
  cases l with
  | tick now =>
      rw [step] at h
      obtain ⟨-, h⟩ := Option.ite_none_right_eq_some.mp h
      cases h
      exact .same rfl
  | datagram data =>
      rw [step] at h
      split at h
      · rename_i m hm
        cases h
        exact routeChange_control hm hasked
      · cases h
        exact .same rfl
  | stunDiscover server timeout tid sent =>
      rw [step] at h
      cases h
      unfold stunDiscover
      split <;> exact .same rfl
  | turnAllocate server timeout tid sent =>
      rw [step] at h
      cases h
      unfold turnAllocate
      split <;> exact .same rfl
  | setTurnPeer server peer tid sent =>
      rw [step] at h
      cases h
      unfold setTurnPeer
      split
      · exact .same rfl
      · refine .same ?_
        rw [turnRoute_answer, lease_askPermission]
        rfl
  | stunGc =>
      rw [step] at h
      cases h
      exact .same (by rw [stunGc, turnRoute_expire, turnRoute_stunExpire])
  | turnRefresh tid sent permissionTid permissionSent =>
      rw [step] at h
      cases h
      exact routeChange_turnRefresh

/-! ## Who is answered -/

def answered (s : TurnSession) : List Nat := s.answers.map (·.1)

/-- A request has one answer at most, and none while it is outstanding. -/
structure Accounted (s : TurnSession) : Prop where
  once : s.answered.Nodup
  answered_lt : ∀ r ∈ s.answered, r < s.requests
  stun : ∀ e ∈ s.stunPending, e.reply < s.requests ∧ e.reply ∉ s.answered
  turn : ∀ e ∈ s.turnPending, ∀ r, e.2.reply = some r → r < s.requests ∧ r ∉ s.answered
  stunInj : ∀ e ∈ s.stunPending, ∀ e' ∈ s.stunPending, e.reply = e'.reply → e = e'
  turnInj : ∀ e ∈ s.turnPending, ∀ e' ∈ s.turnPending, ∀ r,
    e.2.reply = some r → e'.2.reply = some r → e = e'
  apart : ∀ e ∈ s.stunPending, ∀ e' ∈ s.turnPending, e'.2.reply ≠ some e.reply

theorem accounted_init (now : Nat) : (init now).Accounted := by
  constructor <;> simp [init, answered]

/-- Only what is asked and answered matters. -/
theorem Accounted.congr (h : s.Accounted) (hstun : s'.stunPending = s.stunPending)
    (hturn : s'.turnPending = s.turnPending) (hrequests : s'.requests = s.requests)
    (hanswers : s'.answers = s.answers) : s'.Accounted := by
  have hanswered : s'.answered = s.answered := by rw [answered, hanswers, answered]
  constructor
  · rw [hanswered]; exact h.once
  · rw [hanswered, hrequests]; exact h.answered_lt
  · rw [hstun, hanswered, hrequests]; exact h.stun
  · rw [hturn, hanswered, hrequests]; exact h.turn
  · rw [hstun]; exact h.stunInj
  · rw [hturn]; exact h.turnInj
  · rw [hstun, hturn]; exact h.apart

theorem mem_removePending {e : TransactionId × TurnPending} :
    e ∈ (s.removePending tid).turnPending ↔ e ∈ s.turnPending ∧ e.1 ≠ tid := by
  simp [removePending]

theorem mem_removeStun {e : StunPending} :
    e ∈ (s.removeStun tid).stunPending ↔ e ∈ s.stunPending ∧ e.tid ≠ tid := by
  simp [removeStun]

theorem Accounted.removePending (h : s.Accounted) : (s.removePending tid).Accounted where
  once := h.once
  answered_lt := h.answered_lt
  stun := h.stun
  turn := fun e he => h.turn e (mem_removePending.mp he).1
  stunInj := h.stunInj
  turnInj := fun e he e' he' => h.turnInj e (mem_removePending.mp he).1 e' (mem_removePending.mp he').1
  apart := fun e he e' he' => h.apart e he e' (mem_removePending.mp he').1

/-- Somebody asks, and is not yet answered. -/
theorem Accounted.ask (h : s.Accounted) : Accounted { s with requests := s.requests + 1 } where
  once := h.once
  answered_lt := fun r hr => Nat.lt_succ_of_lt (h.answered_lt r hr)
  stun := fun e he => ⟨Nat.lt_succ_of_lt (h.stun e he).1, (h.stun e he).2⟩
  turn := fun e he r hr => ⟨Nat.lt_succ_of_lt (h.turn e he r hr).1, (h.turn e he r hr).2⟩
  stunInj := h.stunInj
  turnInj := h.turnInj
  apart := h.apart

/-- An answer to who is not waiting any more. -/
theorem Accounted.answer {r : Nat} {a : SessionReply} (h : s.Accounted) (hlt : r < s.requests)
    (hnew : r ∉ s.answered) (hstun : ∀ e ∈ s.stunPending, e.reply ≠ r)
    (hturn : ∀ e ∈ s.turnPending, e.2.reply ≠ some r) : (s.answer r a).Accounted := by
  have hanswered : (s.answer r a).answered = r :: s.answered := rfl
  constructor
  · rw [hanswered]
    exact List.nodup_cons.mpr ⟨hnew, h.once⟩
  · rw [hanswered]
    intro r' hr'
    rcases List.mem_cons.mp hr' with rfl | hr'
    · exact hlt
    · exact h.answered_lt r' hr'
  · rw [hanswered]
    intro e he
    refine ⟨(h.stun e he).1, fun hmem => ?_⟩
    rcases List.mem_cons.mp hmem with hr | hmem
    · exact hstun e he hr
    · exact (h.stun e he).2 hmem
  · rw [hanswered]
    intro e he r' hr'
    refine ⟨(h.turn e he r' hr').1, fun hmem => ?_⟩
    rcases List.mem_cons.mp hmem with rfl | hmem
    · exact hturn e he hr'
    · exact (h.turn e he r' hr').2 hmem
  · exact h.stunInj
  · exact h.turnInj
  · exact h.apart

theorem Accounted.answerStun {e : StunPending} {a : SessionReply} (h : s.Accounted)
    (he : e ∈ s.stunPending) : ((s.removeStun e.tid).answer e.reply a).Accounted := by
  have hrest : (s.removeStun e.tid).Accounted :=
    { once := h.once
      answered_lt := h.answered_lt
      stun := fun b hb => h.stun b (mem_removeStun.mp hb).1
      turn := h.turn
      stunInj := fun b hb c hc => h.stunInj b (mem_removeStun.mp hb).1 c (mem_removeStun.mp hc).1
      turnInj := h.turnInj
      apart := fun b hb => h.apart b (mem_removeStun.mp hb).1 }
  refine hrest.answer (h.stun e he).1 (h.stun e he).2 (fun b hb hr => ?_) (h.apart e he)
  obtain ⟨hb, hne⟩ := mem_removeStun.mp hb
  exact hne (congrArg StunPending.tid (h.stunInj b hb e he hr))

theorem Accounted.answerTurn {r : Nat} {a : SessionReply} (h : s.Accounted)
    (he : (tid, p) ∈ s.turnPending) (hr : p.reply = some r) :
    ((s.removePending tid).answer r a).Accounted := by
  obtain ⟨hlt, hnew⟩ := h.turn _ he r hr
  refine h.removePending.answer hlt hnew (fun e hmem hre => ?_) (fun b hb hrb => ?_)
  · exact h.apart e hmem _ he (by rw [hre]; exact hr)
  · obtain ⟨hb, hne⟩ := mem_removePending.mp hb
    exact hne (congrArg Prod.fst (h.turnInj b hb _ he r hrb hr))

theorem mem_of_pending (h : s.pending tid = some p) : (tid, p) ∈ s.turnPending := by
  obtain ⟨e, he, rfl⟩ := Option.map_eq_some_iff.mp h
  obtain ⟨hmem, hkey⟩ := Table.find?_some he
  rw [← of_decide_eq_true hkey]
  exact hmem

theorem Accounted.insertPending (h : s.Accounted) (hlt : ∀ r, p.reply = some r → r < s.requests)
    (hnew : ∀ r, p.reply = some r → r ∉ s.answered)
    (hstun : ∀ r, p.reply = some r → ∀ e ∈ s.stunPending, e.reply ≠ r)
    (hturn : ∀ r, p.reply = some r → ∀ e ∈ s.turnPending, e.2.reply ≠ some r) :
    (s.insertPending tid p).Accounted := by
  have hmem : ∀ {e}, e ∈ (s.insertPending tid p).turnPending → e ∈ s.turnPending ∨ e = (tid, p) :=
    fun he => (Table.mem_insertOrReplace.mp he).imp_left And.left
  constructor
  · exact h.once
  · exact h.answered_lt
  · exact h.stun
  · intro e he r hr
    rcases hmem he with he | rfl
    · exact h.turn e he r hr
    · exact ⟨hlt r hr, hnew r hr⟩
  · exact h.stunInj
  · intro e he e' he' r hr hr'
    rcases hmem he with he | rfl <;> rcases hmem he' with he' | rfl
    · exact h.turnInj e he e' he' r hr hr'
    · exact absurd hr (hturn r hr' e he)
    · exact absurd hr' (hturn r hr e' he')
    · rfl
  · intro e he e' he' hr
    rcases hmem he' with he' | rfl
    · exact h.apart e he e' he' hr
    · exact hstun _ hr e he rfl

/-- A request nobody waits for. -/
theorem Accounted.insertSilent (h : s.Accounted) (hp : p.reply = none) :
    (s.insertPending tid p).Accounted := by
  refine h.insertPending ?_ ?_ ?_ ?_ <;> intro r hr <;> rw [hp] at hr <;> cases hr

/-- A new request. -/
theorem Accounted.insertAsked {server : SocketAddr} {deadline : Nat} (h : s.Accounted) :
    (({ s with requests := s.requests + 1 }).insertPending tid
      (.allocate server s.requests deadline)).Accounted := by
  refine h.ask.insertPending ?_ ?_ ?_ ?_ <;> intro r hr <;> cases hr
  · exact Nat.lt_succ_self _
  · exact fun hmem => Nat.lt_irrefl _ (h.answered_lt _ hmem)
  · exact fun e he => Nat.ne_of_lt (h.stun e he).1
  · exact fun e he hr => Nat.lt_irrefl _ (h.turn e he _ hr).1

/-- A request answered as soon as it is made. -/
theorem Accounted.answerAsked {a : SessionReply} (h : s.Accounted) :
    (({ s with requests := s.requests + 1 }).answer s.requests a).Accounted :=
  h.ask.answer (Nat.lt_succ_self _) (fun hmem => Nat.lt_irrefl _ (h.answered_lt _ hmem))
    (fun e he => Nat.ne_of_lt (h.stun e he).1)
    (fun e he hr => Nat.lt_irrefl _ (h.turn e he _ hr).1)

theorem Accounted.askPermission {sent : Bool} (h : s.Accounted) :
    (s.askPermission tid sent).Accounted := by
  unfold TurnSession.askPermission
  split
  · exact (h.insertSilent rfl).congr rfl rfl rfl rfl
  · exact h

theorem Accounted.stunDiscover {server : SocketAddr} {timeout : Nat} {sent : Bool}
    (h : s.Accounted) : (s.stunDiscover server timeout tid sent).Accounted := by
  unfold TurnSession.stunDiscover
  dsimp only
  split
  · have hmem : ∀ {e}, e ∈ s.stunPending.insertOrReplace
        ⟨tid, server, s.requests, s.now + timeout⟩ →
        e ∈ s.stunPending ∨ e = ⟨tid, server, s.requests, s.now + timeout⟩ :=
      fun he => (Table.mem_insertOrReplace.mp he).imp_left And.left
    refine ⟨h.once, h.ask.answered_lt, fun e he => ?_, h.ask.turn, fun e he e' he' hr => ?_, h.turnInj,
      fun e he e' he' hr => ?_⟩
    · rcases hmem he with he | rfl
      · exact h.ask.stun e he
      · exact ⟨Nat.lt_succ_self _, fun hin => Nat.lt_irrefl _ (h.answered_lt _ hin)⟩
    · rcases hmem he with he | rfl <;> rcases hmem he' with he' | rfl
      · exact h.stunInj e he e' he' hr
      · exact absurd hr (Nat.ne_of_lt (h.stun e he).1)
      · exact absurd hr.symm (Nat.ne_of_lt (h.stun e' he').1)
      · rfl
    · rcases hmem he with he | rfl
      · exact h.apart e he e' he' hr
      · exact Nat.lt_irrefl _ (h.turn e' he' _ hr).1
  · exact h.answerAsked

theorem Accounted.turnAllocate {server : SocketAddr} {timeout : Nat} {sent : Bool}
    (h : s.Accounted) : (s.turnAllocate server timeout tid sent).Accounted := by
  unfold TurnSession.turnAllocate
  dsimp only
  split
  · exact h.insertAsked
  · exact h.answerAsked

theorem Accounted.setTurnPeer {server peer : SocketAddr} {sent : Bool} (h : s.Accounted) :
    (s.setTurnPeer server peer tid sent).Accounted := by
  unfold TurnSession.setTurnPeer
  dsimp only
  split
  · exact h.answerAsked
  · have hset : ∀ route : TurnRoute, ∀ peer : Option SocketAddr,
        Accounted { s with requests := s.requests + 1, turnRoute := route, peer := peer } :=
      fun _ _ => h.ask.congr rfl rfl rfl rfl
    unfold TurnSession.askPermission
    split
    · refine Accounted.answer (((hset _ _).insertSilent rfl).congr rfl rfl rfl rfl)
        (Nat.lt_succ_self _) (fun hmem => Nat.lt_irrefl _ (h.answered_lt _ hmem))
        (fun e he => Nat.ne_of_lt (h.stun e he).1) (fun e he hr => ?_)
      rcases Table.mem_insertOrReplace.mp he with ⟨he, -⟩ | rfl
      · exact Nat.lt_irrefl _ (h.turn e he _ hr).1
      · cases hr
    · exact Accounted.answer (hset _ _) (Nat.lt_succ_self _)
        (fun hmem => Nat.lt_irrefl _ (h.answered_lt _ hmem))
        (fun e he => Nat.ne_of_lt (h.stun e he).1)
        (fun e he hr => Nat.lt_irrefl _ (h.turn e he _ hr).1)

/-- Requests that time out, each of them outstanding until then. -/
theorem Accounted.expire {es : List (TransactionId × TurnPending)} (h : s.Accounted)
    (hmem : ∀ e ∈ es, e ∈ s.turnPending) (hkeys : (es.map Prod.fst).Nodup) :
    (s.expire es).Accounted := by
  induction es generalizing s with
  | nil => exact h
  | cons e es ih =>
      obtain ⟨tid, p⟩ := e
      obtain ⟨hnot, hkeys⟩ := List.nodup_cons.mp hkeys
      have he := hmem _ List.mem_cons_self
      have hleft : ∀ e ∈ es, e ∈ (s.removePending tid).turnPending := by
        intro e' he'
        refine mem_removePending.mpr ⟨hmem e' (List.mem_cons_of_mem _ he'), fun hkey => hnot ?_⟩
        rw [show (tid, p).1 = e'.1 from hkey.symm]
        exact List.mem_map_of_mem he'
      have hone : ((s.removePending tid).timeOut p).Accounted := by
        cases p with
        | allocate server reply deadline => exact h.answerTurn he rfl
        | createPermission deadline => exact h.removePending
        | refresh deadline => exact h.removePending
      refine ih hone (fun e' he' => ?_) hkeys
      have := hleft e' he'
      cases p <;> exact this

theorem Accounted.stunExpire {es : List StunPending} (h : s.Accounted)
    (hmem : ∀ e ∈ es, e ∈ s.stunPending) (hkeys : (es.map StunPending.tid).Nodup) :
    (s.stunExpire es).Accounted := by
  induction es generalizing s with
  | nil => exact h
  | cons e es ih =>
      obtain ⟨hnot, hkeys⟩ := List.nodup_cons.mp hkeys
      refine ih (h.answerStun (hmem e List.mem_cons_self)) (fun e' he' => ?_) hkeys
      refine mem_removeStun.mpr ⟨hmem e' (List.mem_cons_of_mem _ he'), fun hkey => hnot ?_⟩
      rw [← hkey]
      exact List.mem_map_of_mem he'

theorem turnPending_stunExpire {es : List StunPending} :
    (s.stunExpire es).turnPending = s.turnPending := by
  induction es generalizing s with
  | nil => rfl
  | cons e es ih =>
      rw [TurnSession.stunExpire, ih]
      rfl

theorem Accounted.stunGc (h : s.Accounted) : s.stunGc.Accounted := by
  unfold TurnSession.stunGc
  refine Accounted.expire (h.stunExpire (fun e he => (List.mem_filter.mp he).1) ?_) (fun e he => ?_) ?_
  · exact (List.filter_sublist.map _).nodup s.stunPending.unique
  · rw [turnPending_stunExpire]
    exact (List.mem_filter.mp he).1
  · exact (List.filter_sublist.map _).nodup s.turnPending.unique

theorem Accounted.allocateSuccess (h : s.Accounted) : (s.allocateSuccess m).Accounted := by
  unfold TurnSession.allocateSuccess
  dsimp only
  split
  · rename_i server reply deadline hp
    have hanswer : ∀ a, ((s.removePending m.header.transactionId).answer reply a).Accounted :=
      fun _ => h.answerTurn (mem_of_pending hp) rfl
    split
    · exact (hanswer _).congr rfl rfl rfl rfl
    · exact hanswer _
  · exact h.removePending

theorem Accounted.control (h : s.Accounted) : (s.control data m).Accounted := by
  unfold TurnSession.control
  dsimp only
  split
  · split
    · unfold TurnSession.bindingSuccess
      split
      · rename_i e he
        obtain ⟨hmem, hkey⟩ := Table.find?_some he
        have hkey := of_decide_eq_true hkey
        rw [← hkey]
        split <;> exact h.answerStun hmem
      · exact h
    split
    · exact h.allocateSuccess
    split
    · unfold TurnSession.refreshSuccess
      dsimp only
      split
      · split
        · exact h.removePending.congr rfl rfl rfl rfl
        · exact h.removePending
      · exact h.removePending
    split
    · exact h.removePending
    · exact h
  · split
    · exact h.removePending
    split
    · unfold TurnSession.allocateError
      dsimp only
      split
      · rename_i server reply deadline hp
        exact h.answerTurn (mem_of_pending hp) rfl
      · exact h.removePending
    split
    · exact h.removePending
    · exact h
  · exact h

theorem Accounted.turnRefresh {sent permissionSent : Bool} {permissionTid : TransactionId}
    (h : s.Accounted) :
    ((s.refreshTick tid sent).permissionTick permissionTid permissionSent).Accounted := by
  have hrefresh : (s.refreshTick tid sent).Accounted := by
    unfold refreshTick
    split
    · split
      · exact (h.insertSilent rfl).congr rfl rfl rfl rfl
      · exact h
    · exact h
  unfold permissionTick
  split
  · split
    · exact hrefresh.askPermission
    · exact hrefresh
  · exact hrefresh

theorem Accounted.step (h : s.Accounted) (hs : s.step l = some s') : s'.Accounted := by
  cases l with
  | tick now =>
      rw [TurnSession.step] at hs
      obtain ⟨-, hs⟩ := Option.ite_none_right_eq_some.mp hs
      cases hs
      exact h.congr rfl rfl rfl rfl
  | datagram data =>
      rw [TurnSession.step] at hs
      split at hs <;> cases hs
      · exact h.control
      · exact h
  | stunDiscover => cases hs; exact h.stunDiscover
  | turnAllocate => cases hs; exact h.turnAllocate
  | setTurnPeer => cases hs; exact h.setTurnPeer
  | stunGc => cases hs; exact h.stunGc
  | turnRefresh => cases hs; exact h.turnRefresh

theorem accounted_reachable {ok : TurnSession → SessionLabel → Prop} {now : Nat}
    (hr : Lts.Reach step ok (init now) s) : s.Accounted :=
  hr.invariant (accounted_init now) (fun _ _ _ _ h _ hs => h.step hs)

/-- **The route is the server's to grant.** In every run, a step that is not a success response to a
refresh nobody asked for changes relay, lifetime and time of the next refresh only on the success
response to an outstanding request, or by putting off the next refresh when the timer asks for one;
every response ends the request it answers; and who asks has one answer at most. -/
theorem route_integrity {now : Nat} (hr : Lts.Reach step (fun _ _ => True) (init now) s)
    (hs : s.step l = some s') :
    (¬ s.Unasked l → RouteChange s s' l)
      ∧ (∀ data m, l = .datagram data → IsAnswer data m →
        s'.pending m.header.transactionId = none)
      ∧ (s'.answers.map Prod.fst).Nodup := by
  refine ⟨routeChange_step hs, ?_, ((accounted_reachable hr).step hs).once⟩
  rintro data m rfl hm
  rw [step, hm.1] at hs
  cases hs
  exact pending_control hm

/-! ## A refresh nobody asked for, and one that was asked for -/

section Example

def turnServer : SocketAddr := ⟨.v4 #v[203, 0, 113, 5], 3478⟩

def tidOfByte (b : UInt8) : TransactionId := .replicate 12 b

/-- A success response with a relayed address. -/
def allocateAnswer (tid : TransactionId) : List UInt8 :=
  VoipStun.buildMessage Turn.methodAllocate .successResponse tid
    [⟨Turn.attrXorRelayedAddress, VoipStun.encodeXorAddress turnServer tid⟩]

/-- A success response that grants an hour. -/
def refreshAnswer (tid : TransactionId) : List UInt8 :=
  VoipStun.buildMessage Turn.methodRefresh .successResponse tid
    [⟨Turn.attrLifetime, BigEndian.bytes 4 3600⟩]

def allocatedRun : List SessionLabel :=
  [.turnAllocate turnServer 5000 (tidOfByte 1) true, .datagram (allocateAnswer (tidOfByte 1))]

/-- The timer puts off the next refresh with nothing received; and with nothing outstanding a refresh
is taken. -/
theorem refreshed_unasked :
    ((Lts.exec step (init 0) (allocatedRun ++ [.tick 540000])).map (·.turnRoute.nextRefreshAt)
        = some (some 540000)
      ∧ (Lts.exec step (init 0) (allocatedRun ++ [.tick 540000,
          .turnRefresh (tidOfByte 2) true (tidOfByte 3) true])).map (·.turnRoute.nextRefreshAt)
        = some (some 1080000))
    ∧ (Lts.exec step (init 0) allocatedRun).map (fun s =>
        (s.turnPending.rows, s.turnRoute.allocationLifetime, s.turnRoute.nextRefreshAt))
        = some ([], 600000, some 540000)
      ∧ (Lts.exec step (init 0) (allocatedRun ++ [.datagram (refreshAnswer (tidOfByte 9))])).map
          (fun s => (s.turnRoute.allocationLifetime, s.turnRoute.nextRefreshAt))
        = some (3600000, some 3540000) := by
  decide +kernel

/-- The session with a request for a relay outstanding. -/
def askedSession : TurnSession :=
  ((Lts.execWhile step (fun _ _ => True) (init 0) (allocatedRun.take 1))).getD (init 0)

theorem route_integrity_allocatedRun :
    (askedSession.turnRoute.relayed = none
      ∧ (askedSession.control (allocateAnswer (tidOfByte 1))
          ((controlMessage (allocateAnswer (tidOfByte 1))).getD
            ⟨⟨0, 0, .request, 0, tidOfByte 0⟩, []⟩)).turnRoute.relayed = some turnServer)
    ∧ ∃ s', askedSession.step (.datagram (allocateAnswer (tidOfByte 1))) = some s'
      ∧ RouteChange askedSession s' (.datagram (allocateAnswer (tidOfByte 1)))
      ∧ s'.pending (tidOfByte 1) = none
      ∧ (s'.answers.map Prod.fst).Nodup := by
  have hsome : (controlMessage (allocateAnswer (tidOfByte 1))).map
      (fun m => (m.header.cls, m.header.method, m.header.transactionId))
        = some (.successResponse, Turn.methodAllocate, tidOfByte 1) := by decide +kernel
  obtain ⟨m, hm, hfields⟩ := Option.map_eq_some_iff.mp hsome
  obtain ⟨hcls, hmethod, htid⟩ : m.header.cls = .successResponse
      ∧ m.header.method = Turn.methodAllocate ∧ m.header.transactionId = tidOfByte 1 :=
    ⟨congrArg Prod.fst hfields, congrArg (·.2.1) hfields, congrArg (·.2.2) hfields⟩
  have hs : askedSession.step (.datagram (allocateAnswer (tidOfByte 1)))
      = some (askedSession.control (allocateAnswer (tidOfByte 1)) m) := by
    rw [step, hm]
  have hr : Lts.Reach step (fun _ _ => True) (init 0) askedSession :=
    Lts.reach_getD (by decide +kernel)
  obtain ⟨hroute, hgone, honce⟩ := route_integrity hr hs
  refine ⟨by decide +kernel, _, hs, hroute ?_,
    htid ▸ hgone _ m rfl ⟨hm, .inl hcls, .inl hmethod⟩, honce⟩
  rintro ⟨data, m', hl, ⟨hm', hrefresh, -⟩, -⟩
  cases hl
  rw [hm] at hm'
  cases hm'
  rw [hmethod] at hrefresh
  exact absurd hrefresh (by decide)

end Example

end TurnSession

end Paranoia
