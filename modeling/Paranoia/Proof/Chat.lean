import Paranoia.Client.Chat
import Paranoia.Lib.Tasks

/-!
# Messages stay with their dialogue

Whatever is done with a cache, its messages keep their owners: those that come in are put beside
those that are there, or in the place of one of them (`owner_appendMessages`). So as long as what is
delivered is delivered under a label that still names its dialogue, a cache has messages of one
dialogue only, and what was composed in a dialogue is pushed to it (`chats_isolated`).

But the outbox, and what workers bring, go by the label. A message that failed and is tried again
after a change of the profile goes to whom the label names now (`text_misdirected`).
-/

namespace Paranoia

namespace ChatRow

variable {P : DialogueRef → Prop} {cache messages : List ChatRow} {myId peer : String}
  {outbox : List OutboxItem}

/-! ## Owners in a cache -/

theorem owner_add {pending : List (String × Nat)} {m : Merge} {r : ChatRow}
    (hm : ∀ c ∈ m.cache, P c.owner) (hr : P r.owner) :
    ∀ c ∈ (m.add pending myId r).cache, P c.owner := by
  unfold Merge.add
  dsimp only
  split
  · intro c hc
    rcases Tasks.mem_modify hc with hc | ⟨old, -, rfl⟩
    · exact hm c hc
    · exact hr
  · intro c hc
    rcases List.mem_append.mp hc with hc | hc
    · exact hm c hc
    · cases List.mem_singleton.mp hc
      exact hr

theorem owner_sortByTs (h : ∀ c ∈ cache, P c.owner) : ∀ c ∈ sortByTs cache, P c.owner :=
  fun c hc => h c ((List.mem_insertionSort _).mp hc)

/-- A message in the cache was there or has come in. -/
theorem owner_appendMessages (hc : ∀ c ∈ cache, P c.owner) (hm : ∀ m ∈ messages, P m.owner) :
    ∀ c ∈ appendMessages cache myId messages, P c.owner := by
  unfold appendMessages
  split
  · exact hc
  · have hfold : ∀ (messages : List ChatRow) (m : Merge), (∀ r ∈ messages, P r.owner) →
        (∀ c ∈ m.cache, P c.owner) →
        ∀ c ∈ (messages.foldl (Merge.add (pendingTexts cache) myId) m).cache, P c.owner := by
      intro messages
      induction messages with
      | nil => exact fun m _ hm => hm
      | cons r messages ih =>
          intro m hr hm
          exact ih _ (fun r' hr' => hr r' (List.mem_cons_of_mem _ hr'))
            (owner_add hm (hr r List.mem_cons_self))
    intro c hmem
    exact owner_sortByTs (hfold messages (Merge.ofCache cache) hm hc) c (List.mem_of_mem_drop hmem)

theorem owner_setStatus (h : ∀ c ∈ cache, P c.owner) (clientToken status : String) :
    ∀ c ∈ setStatus cache clientToken status, P c.owner := by
  unfold setStatus
  split
  · intro c hc
    rcases Tasks.mem_modify hc with hc | ⟨old, hold, rfl⟩
    · exact h c hc
    · exact h old hold
  · exact h

theorem owner_reinjectOutbox (hc : ∀ c ∈ cache, P c.owner)
    (ho : ∀ item ∈ outbox, item.peer = peer → P item.origin) :
    ∀ c ∈ reinjectOutbox outbox peer cache, P c.owner := by
  refine owner_sortByTs ?_
  induction outbox generalizing cache with
  | nil => exact hc
  | cons item outbox ih =>
      refine ih ?_ fun i hi => ho i (List.mem_cons_of_mem _ hi)
      dsimp only
      split
      · exact hc
      · rename_i hback
        intro c hmem
        rcases List.mem_append.mp hmem with hmem | hmem
        · exact hc c hmem
        · cases List.mem_singleton.mp hmem
          refine ho item List.mem_cons_self ?_
          by_contra hne
          exact hback (.inl hne)

theorem owner_reload (hc : ∀ c ∈ cache, P c.owner) (hm : ∀ m ∈ messages, P m.owner)
    (ho : ∀ item ∈ outbox, item.peer = peer → P item.origin) :
    ∀ c ∈ reload outbox peer cache myId messages, P c.owner :=
  owner_reinjectOutbox (owner_appendMessages (owner_appendMessages nofun hm)
    fun c hmem => hc c (List.mem_filter.mp hmem).1) ho

end ChatRow

namespace ChatWorld

variable {w w' w₀ : ChatWorld} {peer clientToken : String} {d : DialogueRef}

theorem owner_messagesOf {messages : List ChatRow} :
    ∀ r ∈ messagesOf d messages, r.owner = d := by
  intro r hr
  obtain ⟨r', -, rfl⟩ := List.mem_map.mp hr
  rfl

theorem names_findDialog (h : w.findDialog peer = some d) : w.Names peer d := by
  intro d' hd'
  rw [h] at hd'
  exact Option.some.inj hd'

/-- And the sends that are under way go to the dialogues their messages are from. -/
structure Apart (w : ChatWorld) : Prop extends Isolated w where
  sends : ∀ t ∈ w.sends, t.target = t.origin
    ∧ ∀ messages, t.result = .sent messages → ∀ r ∈ messages, r.owner = t.target

theorem Apart.setCache (h : w.Apart) {cache : List ChatRow}
    (hcache : ∀ r ∈ cache, w.Names peer r.owner) : (w.setCache peer cache).Apart where
  pushed := h.pushed
  sends := h.sends
  shown p r hr := by
    unfold ChatWorld.setCache at hr
    dsimp only at hr
    by_cases hp : p = peer
    · subst hp
      rw [Function.update_self] at hr
      exact hcache r hr
    · rw [Function.update_of_ne hp] at hr
      exact h.shown p r hr

theorem Apart.append (h : w.Apart) {messages : List ChatRow}
    (hm : ∀ r ∈ messages, w.Names peer r.owner) : (w.append peer messages).Apart :=
  h.setCache (ChatRow.owner_appendMessages (P := w.Names peer) (h.shown peer) hm)

theorem Apart.markOutboxFailed (h : w.Apart) (peer clientToken : String) :
    (w.markOutboxFailed peer clientToken).Apart := by
  have hout (outbox : List OutboxItem) : ({ w with outbox } : ChatWorld).Apart := { h with }
  exact (hout _).setCache (ChatRow.owner_setStatus (P := w.Names peer) (h.shown peer) _ _)

/-! ## Steps -/

theorem Apart.dispatchOutbox (h : w.Apart)
    (hitem : ∀ item ∈ w.outbox.find? (·.clientToken = clientToken), w.Names item.peer item.origin) :
    (w.dispatchOutbox clientToken).Apart := by
  unfold ChatWorld.dispatchOutbox
  cases hfind : w.outbox.find? (·.clientToken = clientToken) with
  | none => exact h
  | some item =>
      dsimp only
      cases htarget : w.findDialog item.peer with
      | none => exact h.markOutboxFailed _ _
      | some target =>
          dsimp only
          split
          · exact h
          · refine { h with sends := fun t ht => ?_ }
            rcases List.mem_append.mp ht with ht | ht
            · exact h.sends t ht
            · cases List.mem_singleton.mp ht
              -- the label names one dialogue, so the target is where it was composed
              exact ⟨(hitem item hfind target htarget).symm, nofun⟩

theorem Apart.sendTextMessage (h : w.Apart) {text topic : String} {ts : Int}
    (hs : w.sendTextMessage clientToken text topic ts = some w') : w'.Apart := by
  obtain ⟨d, hd, rfl⟩ := Option.map_eq_some_iff.mp hs
  have hnames := names_findDialog hd
  have hout (outbox : List OutboxItem) : ({ w with outbox } : ChatWorld).Apart := { h with }
  refine ((hout _).setCache fun r hr => ?_).dispatchOutbox fun item hfind => ?_
  · rcases List.mem_append.mp hr with hr | hr
    · exact h.shown _ r hr
    · cases List.mem_singleton.mp hr
      exact hnames
  · -- the item is the one that was put there
    have htoken : item.clientToken = clientToken := by
      simpa using List.find?_some (Option.mem_def.mp hfind)
    rcases List.mem_append.mp (List.mem_of_find?_eq_some hfind) with hmem | hmem
    · exact absurd htoken (of_decide_eq_true (List.mem_filter.mp hmem).2)
    · cases List.mem_singleton.mp hmem
      exact hnames

theorem Apart.fetchMessages (h : w.Apart) : w.fetchMessages.Apart := by
  unfold ChatWorld.fetchMessages
  split
  · exact h
  · split
    · exact { h with }
    · split
      · exact h
      · exact { h with }

theorem Apart.work (h : w.Apart) {i : Nat} {pushed : Bool} {answer : Option (List ChatRow)}
    (hs : w.work i pushed answer = some w') : w'.Apart := by
  obtain ⟨t, ht, hs⟩ := Option.bind_eq_some_iff.mp hs
  obtain ⟨-, hs⟩ := Option.ite_none_right_eq_some.mp hs
  cases hs
  -- a worker pushes to the dialogue it was begun for
  obtain ⟨htarget, -⟩ := h.sends t (List.mem_of_getElem? ht)
  refine { h with pushed := fun x hx => ?_, sends := fun t' ht' => ?_ }
  · dsimp only at hx
    split at hx
    · rcases List.mem_append.mp hx with hx | hx
      · exact h.pushed x hx
      · cases List.mem_singleton.mp hx
        exact htarget
    · exact h.pushed x hx
  · rcases List.mem_or_eq_of_mem_set ht' with ht' | rfl
    · exact h.sends t' ht'
    · refine ⟨htarget, fun messages hm => ?_⟩
      cases answer with
      | none => cases hm
      | some sent =>
          cases hm
          exact owner_messagesOf

theorem Apart.sendDone (h : w.Apart) {i : Nat} (hok : w.Undisturbed (.sendDone i))
    (hs : w.sendDone i = some w') : w'.Apart := by
  obtain ⟨t, ht, hs⟩ := Option.bind_eq_some_iff.mp hs
  have hnames := hok t ht
  have hrest (inFlight : List String) (outbox : List OutboxItem) : ({ w with
      sends := w.sends.eraseIdx i, sendInFlight := inFlight, outbox } : ChatWorld).Apart :=
    { h with sends := fun t ht => h.sends t (List.mem_of_mem_eraseIdx ht) }
  dsimp only at hs
  cases hresult : t.result with
  | running => rw [hresult] at hs; cases hs
  | failed =>
      rw [hresult] at hs
      cases hs
      exact (hrest _ _).markOutboxFailed _ _
  | sent messages =>
      rw [hresult] at hs
      cases hs
      have howners : ∀ r ∈ messages.map fun r => { r with clientToken := some t.clientToken },
          w.Names t.peer r.owner := by
        intro r hr
        obtain ⟨r', hr', rfl⟩ := List.mem_map.mp hr
        have howner := (h.sends t (List.mem_of_getElem? ht)).2 messages hresult r' hr'
        rw [show ({ r' with clientToken := some t.clientToken } : ChatRow).owner = t.target from
          howner]
        exact hnames
      have hsent := (hrest (w.sendInFlight.filter (· ≠ t.clientToken))
        (w.outbox.filter (·.clientToken ≠ t.clientToken))).append howners
      split
      · exact hsent.fetchMessages
      · exact hsent

theorem Apart.received (h : w.Apart) {i : Nat} {messages : List ChatRow}
    (hok : w.Undisturbed (.received i messages)) (hs : w.received i messages = some w') :
    w'.Apart := by
  obtain ⟨t, ht, rfl⟩ := Option.map_eq_some_iff.mp hs
  have hnames := hok t ht
  have hrest (inFlight : Bool) (receives : List LoadTask) :
      ({ w with receives, receiveInFlight := inFlight } : ChatWorld).Apart := { h with }
  dsimp only
  generalize hshown : (if t.peer = w.activePeer then _ else _ : ChatWorld) = shown
  have happart : shown.Apart := by
    rw [← hshown]
    split
    · rename_i hpeer
      refine (hrest _ _).append fun r hr => ?_
      rw [owner_messagesOf r hr]
      exact hnames hpeer
    · exact hrest _ _
  split
  · have hagain : ({ shown with receiveAgain := false } : ChatWorld).Apart := { happart with }
    exact hagain.fetchMessages
  · exact happart

theorem Apart.loadHistory (h : w.Apart) (peer : String) (clearCache : Bool) :
    (w.loadHistory peer clearCache).Apart := by
  unfold ChatWorld.loadHistory
  split
  · exact h
  · exact { h with }

theorem Apart.historyLoaded (h : w.Apart) {i : Nat} {messages : Option (List ChatRow)}
    (hok : w.Undisturbed (.historyLoaded i messages)) (hs : w.historyLoaded i messages = some w') :
    w'.Apart := by
  obtain ⟨t, ht, rfl⟩ := Option.map_eq_some_iff.mp hs
  have hnames := hok t ht
  have hrest (histories : List (LoadTask × Bool)) : ({ w with histories } : ChatWorld).Apart :=
    { h with }
  cases messages with
  | none => exact hrest _
  | some messages =>
      dsimp only
      by_cases hpeer : t.1.peer = w.activePeer
      · obtain ⟨hload, hout⟩ := hnames hpeer
        have hmessages : ∀ r ∈ messagesOf t.1.dialogue messages, w.Names t.1.peer r.owner := by
          intro r hr
          rw [owner_messagesOf r hr]
          exact hload
        rw [if_neg (not_not.mpr hpeer)]
        split
        · refine (hrest _).setCache ?_
          refine ChatRow.owner_reload (P := w.Names t.1.peer) (h.shown _) hmessages ?_
          intro item hitem hitempeer
          exact hitempeer ▸ hout item hitem hitempeer
        · exact (hrest _).append hmessages
      · rw [if_pos hpeer]
        exact hrest _

theorem Apart.prefetched (h : w.Apart) {i : Nat} {messages : List (List ChatRow)}
    (hok : w.Undisturbed (.prefetched i messages)) (hs : w.prefetched i messages = some w') :
    w'.Apart := by
  obtain ⟨tasks, ht, rfl⟩ := Option.map_eq_some_iff.mp hs
  have hnames : ∀ t ∈ tasks.zip messages, w.Names t.1.peer t.1.dialogue :=
    fun t htm => hok tasks ht t.1 (List.of_mem_zip htm).1
  have hrest (prefetches : List (List LoadTask)) : ({ w with prefetches } : ChatWorld).Apart :=
    { h with }
  have hfold : ∀ (loads : List (LoadTask × List ChatRow)) (v : ChatWorld),
      (∀ t ∈ loads, v.Names t.1.peer t.1.dialogue) → v.Apart →
      (loads.foldl (fun w t => w.append t.1.peer (messagesOf t.1.dialogue t.2)) v).Apart := by
    intro loads
    induction loads with
    | nil => exact fun _ _ hv => hv
    | cons t loads ih =>
        intro v hall hv
        -- appending changes neither the active profile nor its dialogues
        refine ih _ (fun t' ht' => hall t' (List.mem_cons_of_mem _ ht')) (hv.append fun r hr => ?_)
        rw [owner_messagesOf r hr]
        exact hall t List.mem_cons_self
  exact hfold _ _ hnames (hrest _)

theorem Apart.setDialogs (h : w.Apart) {profileId : String} {dialogs : List ChatDialog}
    (hok : w.Undisturbed (.setDialogs profileId dialogs)) :
    ({ w with dialogs := Function.update w.dialogs profileId dialogs } : ChatWorld).Apart := by
  refine { h with shown := fun peer r hr d hd => ?_ }
  obtain ⟨p, hp, hd⟩ := Option.bind_eq_some_iff.mp hd
  obtain ⟨c, hc, rfl⟩ := Option.map_eq_some_iff.mp hd
  have hactive : w.active = some p := hp
  dsimp only at hc
  by_cases hpp : p = profileId
  · subst hpp
    rw [Function.update_self] at hc
    have hpeer : c.peer = peer := by simpa using List.find?_some hc
    -- the label names what it did, or nothing is cached under it
    rcases hok hactive c (List.mem_of_find?_eq_some hc) with hsame | hempty
    · rw [hpeer] at hsame
      exact h.shown peer r hr _ (hsame c hc)
    · rw [hpeer] at hempty
      dsimp only at hr
      rw [hempty] at hr
      cases hr
  · rw [Function.update_of_ne hpp] at hc
    refine h.shown peer r hr _ ?_
    rw [findDialog, hactive, Option.bind_some, hc]
    rfl

/-- Other labels name the same dialogues as before. -/
theorem Apart.removeDialog (h : w.Apart) (hs : w.removeDialog peer = some w') : w'.Apart := by
  obtain ⟨p, hp, rfl⟩ := Option.map_eq_some_iff.mp hs
  refine { h with shown := fun label r hr d hd => ?_ }
  dsimp only at hr
  by_cases hlabel : label = peer
  · subst hlabel
    rw [Function.update_self] at hr
    cases hr
  · rw [Function.update_of_ne hlabel] at hr
    refine h.shown label r hr d ?_
    obtain ⟨q, hq, hd⟩ := Option.bind_eq_some_iff.mp hd
    obtain ⟨c, hc, rfl⟩ := Option.map_eq_some_iff.mp hd
    have hq : w.active = some q := hq
    cases hp.symm.trans hq
    dsimp only at hc
    rw [Function.update_self] at hc
    have hfind : (w.dialogs p).find? (·.peer = label) = some c := by
      rw [← hc, List.find?_filter]
      congr 1
      funext c'
      by_cases hc' : c'.peer = label
      · simp [hc', hlabel]
      · simp [hc']
    rw [Option.mem_def, findDialog, hp, Option.bind_some, hfind]
    rfl

theorem Apart.step {l : ChatLabel} (h : w.Apart) (hok : w.Undisturbed l) (hs : w.step l = some w') :
    w'.Apart := by
  cases l with
  | sendText => exact h.sendTextMessage hs
  | retrySend clientToken =>
      obtain ⟨item, -, rfl⟩ := Option.map_eq_some_iff.mp hs
      have hstatus := ChatRow.owner_setStatus (P := w.Names item.peer) (h.shown _) clientToken "sending"
      exact (h.setCache hstatus).dispatchOutbox hok
  | work => exact h.work hs
  | sendDone => exact h.sendDone hok hs
  | fetchMessages =>
      cases hs
      exact h.fetchMessages
  | received => exact h.received hok hs
  | loadHistory =>
      cases hs
      exact h.loadHistory _ _
  | historyLoaded => exact h.historyLoaded hok hs
  | prefetchAllDialogs =>
      cases hs
      unfold ChatWorld.prefetchAllDialogs
      split
      · exact h
      · exact { h with }
  | prefetched => exact h.prefetched hok hs
  | openChat peer =>
      cases hs
      have hopened : ({ w with activePeer := peer } : ChatWorld).Apart := { h with }
      unfold ChatWorld.openChat
      dsimp only
      split
      · exact hopened
      · exact (hopened.loadHistory _ _).fetchMessages
  | stopChat =>
      cases hs
      exact { h with }
  | switchSession =>
      cases hs
      exact { h with shown := fun _ _ hr => absurd hr List.not_mem_nil }
  | noSession =>
      cases hs
      exact { h with shown := fun _ _ _ _ hd => absurd hd nofun }
  | setDialogs =>
      cases hs
      exact h.setDialogs hok
  | removeDialog => exact h.removeDialog hs

/-! ## Runs -/

/-- Nobody has opened a chat yet. -/
structure Fresh (w : ChatWorld) : Prop where
  cache : ∀ peer, w.cache peer = []
  sends : w.sends = []
  pushed : w.pushed = []

/-- In every run in which labels go on naming what they named, each message is pushed to the
dialogue it was composed in, by the account it was composed with, and each cache has messages of the
dialogue that its label names. -/
theorem chats_isolated (h0 : w₀.Fresh) (hr : Lts.Reach step Undisturbed w₀ w) : w.Isolated := by
  have hstart : w₀.Apart :=
    ⟨⟨by rw [h0.pushed]; exact nofun, fun p r hr => by rw [h0.cache] at hr; cases hr⟩,
      by rw [h0.sends]; exact nofun⟩
  exact (hr.invariant (P := Apart) hstart fun _ _ _ _ h hok hs => h.step hok hs).toIsolated

/-- Two profiles, each with a dialogue called bob. -/
def twoBobs : ChatWorld where
  dialogs p := if p = "home" then [⟨"bob", 1⟩] else if p = "work" then [⟨"bob", 2⟩] else []
  myId p := p
  active := some "home"
  activePeer := ""
  cache _ := []
  outbox := []
  sendInFlight := []
  receiveInFlight := false
  receiveAgain := false
  sends := []
  receives := []
  histories := []
  prefetches := []
  pushed := []

theorem fresh_twoBobs : twoBobs.Fresh := ⟨fun _ => rfl, rfl, rfl⟩

/-- A message of a dialogue, which `messagesOf` gives its owner. -/
def chatRow (id text : String) (seq : Nat) : ChatRow :=
  ⟨id, none, "bob", text, seq, 0, "delivered", "", ⟨"", 0⟩⟩

def sendHome : List ChatLabel := [.openChat "bob", .sendText "pending:txt:1" "secret" "" 0]

/-- A message fails, is tried again in the same profile, and arrives. -/
def retriedAtHome : List ChatLabel :=
  sendHome ++ [.work 0 false none, .sendDone 0, .retrySend "pending:txt:1",
    .work 0 true (some [chatRow "m1" "secret" 1]), .sendDone 0, .received 0 [chatRow "m2" "hi" 2]]

theorem chats_isolated_retried :
    ∃ w, Lts.exec step twoBobs retriedAtHome = some w ∧ w.pushed.length = 1 ∧ w.Isolated := by
  have hsome : ((Lts.execWhile step Undisturbed twoBobs retriedAtHome).any fun w =>
      w.pushed.length = 1) = true := by
    decide
  obtain ⟨w, hw, hlen⟩ := (Option.any_eq_true _ _).mp hsome
  exact ⟨w, Lts.exec_of_execWhile hw, of_decide_eq_true hlen,
    chats_isolated fresh_twoBobs (Lts.Reach.refl.execWhile hw)⟩

/-- It is tried again after a change of the profile. -/
def retriedAtWork : List ChatLabel :=
  sendHome ++ [.work 0 false none, .sendDone 0, .switchSession "work", .retrySend "pending:txt:1",
    .work 0 true (some [chatRow "m1" "secret" 1])]

/-- What was received for one profile is delivered while the other shows its dialogue. -/
def receivedAtWork : List ChatLabel :=
  [.openChat "bob", .switchSession "work", .openChat "bob", .received 0 [chatRow "m1" "hi" 1]]

theorem text_misdirected :
    ((Lts.exec step twoBobs retriedAtWork).any fun w =>
      w.pushed = [⟨"secret", ⟨"work", 2⟩, ⟨"home", 1⟩⟩]) = true
    ∧ ((Lts.exec step twoBobs receivedAtWork).any fun w =>
      w.active = some "work" ∧ w.findDialog "bob" = some ⟨"work", 2⟩
        ∧ (w.cache "bob").map ChatRow.owner = [⟨"home", 1⟩]) = true := by
  constructor <;> decide

end ChatWorld

end Paranoia
