import Paranoia.Server.TurnRelay

/-!
# The table of allocations

A new relay socket has an address that no open socket has, and what is in the table keeps its socket
open, so no two allocations share a relayed address, and the entries by relayed address are those of
the allocations, whatever the order of steps. The collector looks for what has expired and removes
it later, under the lock again but without a second look: an allocation that was extended, or made
anew, in between goes with the others (`collected_live`). Unless that happens it removes only what
has expired (`allocations_safe`).
-/

namespace Paranoia

/-- The address all relay sockets are bound to. -/
def TurnConfig.relayIp (cfg : TurnConfig) : IpAddr :=
  relayBindAddr cfg.controlBind.ip cfg.controlBind.ip

theorem relayBindAddr_of_family {controlBind client : IpAddr} (h : client.isV4 = controlBind.isV4) :
    relayBindAddr controlBind client = relayBindAddr controlBind controlBind := by
  cases controlBind <;> cases client <;> first | rfl | cases h

namespace AllocTable

variable {t : AllocTable} {a b : Allocation} {client relayed : SocketAddr} {expiresAt : Nat}

/-! ## What the operations leave -/

theorem get_eq_some (h : t.get client = some a) : a ∈ t.byClient ∧ a.client = client := by
  obtain ⟨hmem, hclient⟩ := Table.find?_some h
  exact ⟨hmem, of_decide_eq_true hclient⟩

theorem get_eq_none (h : t.get client = none) : ∀ b ∈ t.byClient, b.client ≠ client := by
  intro b hb
  exact of_decide_eq_false (Table.find?_eq_none.mp h b hb)

theorem get_of_mem (h : a ∈ t.byClient) : t.get a.client = some a := by
  cases hg : t.get a.client with
  | none => exact absurd rfl (get_eq_none hg a h)
  | some b =>
      obtain ⟨hb, hclient⟩ := get_eq_some hg
      rw [Table.eq_of_key hb h hclient]

theorem mem_remove : b ∈ (t.remove a).byClient ↔ b ∈ t.byClient ∧ b.client ≠ a.client := by
  simp [remove]

theorem mem_byRelayed_remove {e : SocketAddr × SocketAddr} :
    e ∈ (t.remove a).byRelayed ↔ e ∈ t.byRelayed ∧ e.1 ≠ a.relayedAddr := by
  simp [remove]

/-- An extended table has the same allocations, but for the time. -/
theorem mem_extend : b ∈ (t.extend client expiresAt).byClient ↔
    ∃ a ∈ t.byClient, b = if a.client = client then { a with expiresAt := expiresAt } else a := by
  simp [extend, Table.mem_updateWhere]

theorem mem_insert : b ∈ (t.insert a).byClient ↔ (b ∈ t.byClient ∧ b.client ≠ a.client) ∨ b = a := by
  simp [insert]

theorem mem_byRelayed_insert {e : SocketAddr × SocketAddr} : e ∈ (t.insert a).byRelayed ↔
    (e ∈ t.byRelayed ∧ e.1 ≠ a.relayedAddr) ∨ e = (a.relayedAddr, a.client) := by
  simp [insert]

/-! ## The table as a pairing -/

/-- The entries by relayed address are those of the allocations. -/
def Inverse (t : AllocTable) : Prop :=
  ∀ relayed client, (relayed, client) ∈ t.byRelayed ↔
    ∃ a ∈ t.byClient, a.client = client ∧ a.relayedAddr = relayed

/-- No two allocations share a relayed address. -/
def Distinct (t : AllocTable) : Prop :=
  ∀ a ∈ t.byClient, ∀ b ∈ t.byClient, a.relayedAddr = b.relayedAddr → a = b

structure Sound (cfg : TurnConfig) (t : AllocTable) : Prop where
  inverse : t.Inverse
  relayed : ∀ a ∈ t.byClient,
    a.relayedAddr = publicAddr a.relaySocket cfg.publicIp ∧ a.relaySocket.ip = cfg.relayIp
  sockets : ∀ a ∈ t.byClient, ∀ b ∈ t.byClient, a.relaySocket = b.relaySocket → a = b

variable {cfg : TurnConfig}

theorem sound_empty : empty.Sound cfg where
  inverse := by simp [empty, Inverse]
  relayed := by simp [empty]
  sockets := by simp [empty]

/-- Sockets on one address differ in their ports, which the public addresses keep. -/
theorem eq_of_publicAddr {s s' : SocketAddr} (hip : s.ip = s'.ip)
    (h : publicAddr s cfg.publicIp = publicAddr s' cfg.publicIp) : s = s' := by
  obtain ⟨ip, port⟩ := s
  obtain ⟨ip', port'⟩ := s'
  cases hip
  unfold publicAddr at h
  split at h
  · cases h
    rfl
  · exact h

theorem Sound.distinct (hs : t.Sound cfg) : t.Distinct := by
  intro a ha b hb h
  obtain ⟨hra, hia⟩ := hs.relayed a ha
  obtain ⟨hrb, hib⟩ := hs.relayed b hb
  exact hs.sockets a ha b hb (eq_of_publicAddr (hia.trans hib.symm) (hra.symm.trans (h.trans hrb)))

theorem Sound.remove (hs : t.Sound cfg) (ha : a ∈ t.byClient) : (t.remove a).Sound cfg where
  inverse := by
    intro relayed client
    rw [mem_byRelayed_remove, hs.inverse relayed client]
    constructor
    · rintro ⟨⟨b, hb, hclient, hrelayed⟩, hne⟩
      refine ⟨b, mem_remove.mpr ⟨hb, fun h => hne ?_⟩, hclient, hrelayed⟩
      rw [← hrelayed, Table.eq_of_key hb ha h]
    · rintro ⟨b, hb, hclient, hrelayed⟩
      obtain ⟨hb, hne⟩ := mem_remove.mp hb
      refine ⟨⟨b, hb, hclient, hrelayed⟩, fun h => hne ?_⟩
      rw [hs.distinct b hb a ha (hrelayed.trans h)]
  relayed := fun b hb => hs.relayed b (mem_remove.mp hb).1
  sockets := fun b hb c hc => hs.sockets b (mem_remove.mp hb).1 c (mem_remove.mp hc).1

theorem Sound.extend (hs : t.Sound cfg) : (t.extend client expiresAt).Sound cfg where
  inverse := by
    intro relayed client'
    rw [AllocTable.extend, hs.inverse relayed client']
    constructor
    · rintro ⟨a, ha, hclient, hrelayed⟩
      refine ⟨_, mem_extend.mpr ⟨a, ha, rfl⟩, ?_, ?_⟩ <;> split <;> assumption
    · rintro ⟨b, hb, hclient, hrelayed⟩
      obtain ⟨a, ha, rfl⟩ := mem_extend.mp hb
      refine ⟨a, ha, ?_, ?_⟩
      · split at hclient <;> exact hclient
      · split at hrelayed <;> exact hrelayed
  relayed := by
    intro b hb
    obtain ⟨a, ha, rfl⟩ := mem_extend.mp hb
    have := hs.relayed a ha
    split <;> exact this
  sockets := by
    intro b hb c hc h
    obtain ⟨a, ha, rfl⟩ := mem_extend.mp hb
    obtain ⟨a', ha', rfl⟩ := mem_extend.mp hc
    have hsocket : ∀ a : Allocation,
        (if a.client = client then { a with expiresAt := expiresAt } else a).relaySocket
          = a.relaySocket := by
      intro a
      split <;> rfl
    rw [hsocket, hsocket] at h
    rw [hs.sockets a ha a' ha' h]

theorem Sound.insert (hs : t.Sound cfg)
    (hclient : ∀ b ∈ t.byClient, b.client ≠ a.client)
    (hsocket : ∀ b ∈ t.byClient, b.relaySocket ≠ a.relaySocket)
    (hrelayed : a.relayedAddr = publicAddr a.relaySocket cfg.publicIp)
    (hip : a.relaySocket.ip = cfg.relayIp) : (t.insert a).Sound cfg := by
  have hfresh : ∀ b ∈ t.byClient, b.relayedAddr ≠ a.relayedAddr := by
    intro b hb h
    obtain ⟨hrb, hib⟩ := hs.relayed b hb
    exact hsocket b hb (eq_of_publicAddr (hib.trans hip.symm) (hrb.symm.trans (h.trans hrelayed)))
  refine ⟨?_, ?_, ?_⟩
  · intro relayed client
    rw [mem_byRelayed_insert, hs.inverse relayed client]
    constructor
    · rintro (⟨⟨b, hb, hc, hr⟩, -⟩ | h)
      · exact ⟨b, mem_insert.mpr (.inl ⟨hb, hclient b hb⟩), hc, hr⟩
      · cases h
        exact ⟨a, mem_insert.mpr (.inr rfl), rfl, rfl⟩
    · rintro ⟨b, hb, rfl, rfl⟩
      rcases mem_insert.mp hb with ⟨hb, -⟩ | rfl
      · exact .inl ⟨⟨b, hb, rfl, rfl⟩, hfresh b hb⟩
      · exact .inr rfl
  · intro b hb
    rcases mem_insert.mp hb with ⟨hb, -⟩ | rfl
    · exact hs.relayed b hb
    · exact ⟨hrelayed, hip⟩
  · intro b hb c hc h
    rcases mem_insert.mp hb with ⟨hb', -⟩ | hb' <;> rcases mem_insert.mp hc with ⟨hc', -⟩ | hc'
    · exact hs.sockets b hb' c hc' h
    · exact absurd (hc' ▸ h) (hsocket b hb')
    · exact absurd (hb' ▸ h).symm (hsocket c hc')
    · rw [hb', hc']

end AllocTable

namespace TurnWorld

variable {cfg : TurnConfig} {w w' : TurnWorld} {l : TurnLabel} {a : Allocation}
variable {clients : List SocketAddr}

/-- What a step does. -/
inductive StepCase (cfg : TurnConfig) (w : TurnWorld) : TurnLabel → TurnWorld → Prop where
  | tick {now : Nat} (h : w.now ≤ now) : StepCase cfg w (.tick now) { w with now := now }
  | allocate {client : SocketAddr} (hidle : w.listener = .idle)
      (hfamily : client.ip.isV4 = cfg.controlBind.ip.isV4) :
      StepCase cfg w (.allocate client) { w with listener := .lookup client w.now }
  | lookup {client : SocketAddr} {now : Nat} (hp : w.listener = .lookup client now) :
      StepCase cfg w .lookup (w.stepLookup client now)
  | bound {client socket : SocketAddr} {now : Nat} (hp : w.listener = .bind client now)
      (hb : w.Bindable cfg client socket) :
      StepCase cfg w (.bind (some socket)) (w.stepBound cfg client socket now)
  | unbound {client : SocketAddr} {now : Nat} (hp : w.listener = .bind client now) :
      StepCase cfg w (.bind none) { w with listener := .idle }
  | insert {a : Allocation} (hp : w.listener = .insert a) :
      StepCase cfg w .insert { w with table := w.table.insert a, listener := .idle }
  | refresh {client : SocketAddr} {lifetime : Nat} (hidle : w.listener = .idle) :
      StepCase cfg w (.refresh client lifetime) (w.stepRefresh client lifetime)
  | send {client peer : SocketAddr} (hidle : w.listener = .idle) :
      StepCase cfg w (.send client peer) (w.stepSend client peer).1
  | collect : StepCase cfg w .collect w.stepCollect
  | relay {id : Nat} {event : RelayEvent} {r r' : RelayLoop} (hr : w.relays[id]? = some r)
      (hs : r.step event = some r') :
      StepCase cfg w (.relay id event) { w with relays := w.relays.set id r' }

theorem step_cases (h : w.step cfg l = some w') : w.StepCase cfg l w' := by
  cases l with
  | tick now =>
      rw [step] at h
      obtain ⟨hle, h⟩ := Option.ite_none_right_eq_some.mp h
      cases h
      exact .tick hle
  | allocate client =>
      rw [step] at h
      obtain ⟨⟨hidle, hfamily⟩, h⟩ := Option.ite_none_right_eq_some.mp h
      cases h
      exact .allocate hidle hfamily
  | lookup =>
      rw [step] at h
      split at h
      · rename_i client now hp
        cases h
        exact .lookup hp
      · cases h
  | bind socket =>
      rw [step.eq_def] at h
      dsimp only at h
      split at h
      · rename_i hp
        obtain ⟨hb, h⟩ := Option.ite_none_right_eq_some.mp h
        cases h
        exact .bound hp hb
      · rename_i hp
        cases h
        exact .unbound hp
      · cases h
  | insert =>
      rw [step] at h
      split at h
      · rename_i a hp
        cases h
        exact .insert hp
      · cases h
  | refresh client lifetime =>
      rw [step] at h
      obtain ⟨hidle, h⟩ := Option.ite_none_right_eq_some.mp h
      cases h
      exact .refresh hidle
  | send client peer =>
      rw [step] at h
      obtain ⟨hidle, h⟩ := Option.ite_none_right_eq_some.mp h
      cases h
      exact .send hidle
  | collect =>
      rw [step] at h
      cases h
      exact .collect
  | relay id event =>
      rw [step] at h
      split at h
      · rename_i r hr
        obtain ⟨r', hs, rfl⟩ := Option.map_eq_some_iff.mp h
        exact .relay hr hs
      · cases h

theorem drop_table (w : TurnWorld) (a : Allocation) : (w.drop a).table = w.table.remove a := rfl

/-- What a single removal keeps, removing many keeps. -/
theorem removeAll_induction {P : TurnWorld → Prop}
    (hdrop : ∀ w a, P w → a ∈ w.table.byClient → P (w.drop a)) (h : P w) :
    P (w.removeAll clients) := by
  induction clients generalizing w with
  | nil => exact h
  | cons client rest ih =>
      unfold removeAll
      split
      · rename_i a ha
        exact ih (hdrop w a h (AllocTable.get_eq_some ha).1)
      · exact ih h

/-- Only allocations of the clients named go. -/
theorem mem_removeAll (h : a ∈ w.table.byClient) (hc : a.client ∉ clients) :
    a ∈ (w.removeAll clients).table.byClient := by
  induction clients generalizing w with
  | nil => exact h
  | cons client rest ih =>
      rw [List.mem_cons, not_or] at hc
      unfold removeAll
      split
      · rename_i b hb
        refine ih ?_ hc.2
        rw [drop_table, AllocTable.mem_remove, (AllocTable.get_eq_some hb).2]
        exact ⟨h, hc.1⟩
      · exact ih h hc.2

/-! ## Whatever the order of steps -/

/-- The listener has made sure of what it will enter. -/
def ListenerSound (cfg : TurnConfig) (t : AllocTable) : ListenerPoint → Prop
  | .idle => True
  | .lookup client _ => client.ip.isV4 = cfg.controlBind.ip.isV4
  | .bind client _ =>
      client.ip.isV4 = cfg.controlBind.ip.isV4 ∧ ∀ b ∈ t.byClient, b.client ≠ client
  | .insert a =>
      (∀ b ∈ t.byClient, b.client ≠ a.client ∧ b.relaySocket ≠ a.relaySocket)
        ∧ a.relayedAddr = publicAddr a.relaySocket cfg.publicIp ∧ a.relaySocket.ip = cfg.relayIp

structure Sound (cfg : TurnConfig) (w : TurnWorld) : Prop where
  table : w.table.Sound cfg
  listener : ListenerSound cfg w.table w.listener

theorem sound_init (now : Nat) : (init now).Sound cfg := ⟨AllocTable.sound_empty, trivial⟩

theorem ListenerSound.mono {t t' : AllocTable} {p : ListenerPoint}
    (h : ListenerSound cfg t p)
    (hsub : ∀ b ∈ t'.byClient, ∃ c ∈ t.byClient, b.client = c.client ∧ b.relaySocket = c.relaySocket) :
    ListenerSound cfg t' p := by
  cases p with
  | idle => trivial
  | lookup client now => exact h
  | bind client now =>
      refine ⟨h.1, fun b hb => ?_⟩
      obtain ⟨c, hc, hclient, -⟩ := hsub b hb
      rw [hclient]
      exact h.2 c hc
  | insert a =>
      refine ⟨fun b hb => ?_, h.2⟩
      obtain ⟨c, hc, hclient, hsocket⟩ := hsub b hb
      rw [hclient, hsocket]
      exact h.1 c hc

theorem Sound.drop (hs : w.Sound cfg) (ha : a ∈ w.table.byClient) : (w.drop a).Sound cfg where
  table := hs.table.remove ha
  listener := hs.listener.mono (fun b hb => ⟨b, (AllocTable.mem_remove.mp hb).1, rfl, rfl⟩)

theorem Sound.lookup {client : SocketAddr} {now : Nat} (hs : w.Sound cfg)
    (hp : w.listener = .lookup client now) : (w.stepLookup client now).Sound cfg := by
  have hfamily := hs.listener
  rw [hp] at hfamily
  unfold stepLookup
  split
  · rename_i a ha
    obtain ⟨hmem, hclient⟩ := AllocTable.get_eq_some ha
    split
    · exact ⟨hs.table.extend, trivial⟩
    · refine ⟨hs.table.remove hmem, hfamily, fun b hb => ?_⟩
      rw [← hclient]
      exact (AllocTable.mem_remove.mp hb).2
  · rename_i ha
    exact ⟨hs.table, hfamily, AllocTable.get_eq_none ha⟩

theorem Sound.bound {client socket : SocketAddr} {now : Nat} (hs : w.Sound cfg)
    (hp : w.listener = .bind client now) (hb : w.Bindable cfg client socket) :
    (w.stepBound cfg client socket now).Sound cfg := by
  have hlistener := hs.listener
  rw [hp] at hlistener
  obtain ⟨hip, -, hopen⟩ := hb
  refine ⟨hs.table, fun b hmem => ⟨hlistener.2 b hmem, fun h => hopen ?_⟩, rfl, ?_⟩
  · rw [show socket = b.relaySocket from h.symm]
    exact List.mem_append_left _ (List.mem_append_left _ (List.mem_map_of_mem hmem))
  · exact hip.trans (relayBindAddr_of_family hlistener.1)

theorem Sound.step (hs : w.Sound cfg) (h : w.StepCase cfg l w') : w'.Sound cfg := by
  -- an extension with the listener idle
  have hextend : ∀ {client : SocketAddr} {expiresAt : Nat}, w.listener = .idle →
      Sound cfg { w with table := w.table.extend client expiresAt } := by
    intro client expiresAt hidle
    refine ⟨hs.table.extend, ?_⟩
    show ListenerSound cfg _ w.listener
    rw [hidle]
    trivial
  cases h with
  | tick _ => exact ⟨hs.table, hs.listener⟩
  | allocate _ hfamily => exact ⟨hs.table, hfamily⟩
  | lookup hp => exact hs.lookup hp
  | bound hp hb => exact hs.bound hp hb
  | unbound => exact ⟨hs.table, trivial⟩
  | insert hp =>
      have hlistener := hs.listener
      rw [hp] at hlistener
      obtain ⟨hfresh, hrelayed, hip⟩ := hlistener
      exact ⟨hs.table.insert (fun b hb => (hfresh b hb).1) (fun b hb => (hfresh b hb).2) hrelayed
        hip, trivial⟩
  | refresh hidle =>
      unfold stepRefresh
      split
      · split
        · rename_i a ha
          exact hs.drop (AllocTable.get_eq_some ha).1
        · exact hs
      · exact hextend hidle
  | send hidle =>
      unfold stepSend
      split
      · exact hextend hidle
      · exact hs
  | collect =>
      unfold stepCollect
      split
      · exact ⟨hs.table, hs.listener⟩
      · split <;> exact ⟨hs.table, hs.listener⟩
      · have hall : ∀ clients, (w.removeAll clients).Sound cfg := fun clients =>
          removeAll_induction (P := fun v => v.Sound cfg) (fun v a hv ha => hv.drop ha) hs
        exact ⟨(hall _).table, (hall _).listener⟩
  | relay => exact ⟨hs.table, hs.listener⟩

theorem sound_reachable {ok : TurnWorld → TurnLabel → Prop} {now : Nat}
    (hr : Lts.Reach (step cfg) ok (init now) w) : w.Sound cfg :=
  hr.invariant (sound_init now) (fun _ _ _ _ hs _ h => hs.step (step_cases h))

/-! ## The collector -/

/-- What the collector has found and not yet removed. -/
def listed (w : TurnWorld) : List SocketAddr :=
  match w.collector with
  | .remove expired => expired
  | _ => []

/-- Whose allocation the listener is about to extend or make. -/
def serving (w : TurnWorld) : Option SocketAddr :=
  match w.listener with
  | .idle => none
  | .lookup client _ => some client
  | .bind client _ => some client
  | .insert a => some a.client

/-- No allocation of a client the collector has listed is made or extended. -/
def Undisturbed (w : TurnWorld) : TurnLabel → Prop
  | .lookup => ∀ client ∈ w.serving, client ∉ w.listed
  | .insert => ∀ client ∈ w.serving, client ∉ w.listed
  | .refresh client lifetime => lifetime = 0 ∨ client ∉ w.listed
  | .send client _ => client ∉ w.listed
  | _ => True

instance (w : TurnWorld) : DecidablePred w.Undisturbed := fun l => by
  cases l <;> unfold Undisturbed <;> infer_instance

/-- What the collector takes out of the table has expired. -/
def CollectsExpired (w : TurnWorld) : Prop :=
  ∀ a ∈ w.table.byClient, a ∉ w.stepCollect.table.byClient → a.expiresAt ≤ w.now

structure Collects (w : TurnWorld) : Prop where
  scan : ∀ now, w.collector = .scan now → now ≤ w.now
  expired : ∀ a ∈ w.table.byClient, a.client ∈ w.listed → a.expiresAt ≤ w.now

theorem Collects.collectsExpired (hc : w.Collects) : w.CollectsExpired := by
  intro a ha hgone
  refine hc.expired a ha ?_
  by_contra hnot
  refine hgone ?_
  unfold stepCollect
  split
  · exact ha
  · split <;> exact ha
  · rename_i clients hcollector
    rw [listed, hcollector] at hnot
    exact mem_removeAll ha hnot

/-- Fewer allocations, and extensions of what is not listed. -/
theorem Collects.table {t : AllocTable} (hc : w.Collects)
    (h : ∀ b ∈ t.byClient, b ∈ w.table.byClient ∨ b.client ∉ w.listed) :
    Collects { w with table := t } where
  scan := hc.scan
  expired := by
    intro b hb hlisted
    rcases h b hb with hmem | hnot
    · exact hc.expired b hmem hlisted
    · exact absurd hlisted hnot

theorem mem_extend_or {t : AllocTable} {client : SocketAddr} {expiresAt : Nat} {b : Allocation}
    (hnot : client ∉ w.listed) (hb : b ∈ (t.extend client expiresAt).byClient) :
    b ∈ t.byClient ∨ b.client ∉ w.listed := by
  obtain ⟨a, ha, rfl⟩ := AllocTable.mem_extend.mp hb
  split
  · rename_i h
    right
    show a.client ∉ w.listed
    rwa [h]
  · exact .inl ha

theorem collects_init (now : Nat) : (init now).Collects where
  scan := by simp [init]
  expired := by simp [init, AllocTable.empty]

theorem Collects.drop (hc : w.Collects) : (w.drop a).Collects where
  scan := hc.scan
  expired := fun b hb => hc.expired b (AllocTable.mem_remove.mp hb).1

theorem Collects.stepCollect (hc : w.Collects) : w.stepCollect.Collects := by
  unfold TurnWorld.stepCollect
  split
  · refine ⟨fun now h => ?_, fun a _ h => absurd h List.not_mem_nil⟩
    cases h
    exact Nat.le_refl _
  · rename_i now hscan
    split
    · exact ⟨fun now h => (by cases h), fun a _ h => absurd h List.not_mem_nil⟩
    · rename_i hexpired
      refine ⟨fun now h => (by cases h), fun a ha hlisted => ?_⟩
      obtain ⟨b, hb, hclient⟩ := List.mem_map.mp hlisted
      obtain ⟨hmem, hle⟩ := List.mem_filter.mp hb
      have hab : b = a := Table.eq_of_key hmem ha hclient
      have := hc.scan now hscan
      have : b.expiresAt ≤ now := by simpa using hle
      rw [← hab]
      show b.expiresAt ≤ w.now
      omega
  · exact ⟨fun now h => (by cases h), fun a _ h => absurd h List.not_mem_nil⟩

theorem Collects.step (hc : w.Collects) (hok : w.Undisturbed l) (h : w.StepCase cfg l w') :
    w'.Collects := by
  cases h with
  | tick hle =>
      refine ⟨fun now h => Nat.le_trans (hc.scan now h) hle, fun a ha h => ?_⟩
      exact Nat.le_trans (hc.expired a ha h) hle
  | allocate => exact ⟨hc.scan, hc.expired⟩
  | lookup hp =>
      have hok := hok _ (by rw [serving, hp]; rfl)
      unfold stepLookup
      split
      · split
        · exact ⟨hc.scan, (hc.table (fun b hb => mem_extend_or hok hb)).expired⟩
        · exact ⟨hc.scan, hc.drop.expired⟩
      · exact ⟨hc.scan, hc.expired⟩
  | bound => exact ⟨hc.scan, hc.expired⟩
  | unbound => exact ⟨hc.scan, hc.expired⟩
  | insert hp =>
      have hok := hok _ (by rw [serving, hp]; rfl)
      refine ⟨hc.scan, (hc.table (fun b hb => ?_)).expired⟩
      rcases AllocTable.mem_insert.mp hb with ⟨hb, -⟩ | rfl
      · exact .inl hb
      · exact .inr hok
  | refresh =>
      unfold stepRefresh
      split
      · split
        · exact hc.drop
        · exact hc
      · rename_i hlifetime
        exact hc.table (fun b hb => mem_extend_or (hok.resolve_left hlifetime) hb)
  | send =>
      unfold stepSend
      split
      · exact hc.table (fun b hb => mem_extend_or hok hb)
      · exact hc
  | collect => exact hc.stepCollect
  | relay => exact ⟨hc.scan, hc.expired⟩

theorem collects_reachable {now : Nat} (hr : Lts.Reach (step cfg) Undisturbed (init now) w) :
    w.Collects :=
  hr.invariant (collects_init now) (fun _ _ _ _ hc hok h => hc.step hok (step_cases h))

/-- **The table of allocations**, in every run: the entries by relayed address are those of the
allocations, and no two of these share one. As long as nothing is made or extended that the
collector has listed, it removes only what has expired. -/
theorem allocations_safe (cfg : TurnConfig) (now : Nat) :
    (∀ w, Lts.Reach (step cfg) (fun _ _ => True) (init now) w →
      w.table.Inverse ∧ w.table.Distinct)
    ∧ ∀ w, Lts.Reach (step cfg) Undisturbed (init now) w → w.CollectsExpired := by
  refine ⟨fun w hr => ?_, fun w hr => (collects_reachable hr).collectsExpired⟩
  have hs := sound_reachable hr
  exact ⟨hs.table.inverse, hs.table.distinct⟩

/-! ## A removal that comes too late, and one in time -/

section Example

def localConfig : TurnConfig := ⟨⟨.v4 (.replicate 4 0), 3478⟩, some (.v4 #v[203, 0, 113, 1]), none⟩

def someClient : SocketAddr := ⟨.v4 #v[198, 51, 100, 7], 40000⟩

def relayAt (port : UInt16) : SocketAddr := ⟨.v4 (.replicate 4 0), port⟩

/-- A client allocates at 0, and the collector looks at 600. -/
def collectingRun : List TurnLabel :=
  [.allocate someClient, .lookup, .bind (some (relayAt 50000)), .insert, .relay 0 .run, .tick 600,
    .collect, .collect]

/-- Before the collector removes what it found, the client sends. -/
theorem collected_live :
    ∃ w a, Lts.exec (step localConfig) (init 0) (collectingRun ++ [.send someClient someClient])
        = some w
      ∧ w.now = 600 ∧ a ∈ w.table.byClient ∧ a.expiresAt = 1200
      ∧ a ∉ w.stepCollect.table.byClient :=
  have h : (Lts.exec (step localConfig) (init 0)
      (collectingRun ++ [.send someClient someClient])).isSome = true := by decide +kernel
  ⟨_, ⟨someClient, relayAt 50000, ⟨.v4 #v[203, 0, 113, 1], 50000⟩, 1200, 0⟩, Lts.exec_getD h,
    by decide +kernel, by decide +kernel, rfl, by decide +kernel⟩

theorem allocations_safe_collectingRun :
    (∃ a, a ∈ ((Lts.execWhile (step localConfig) Undisturbed (init 0) collectingRun).getD
      (init 0)).table.byClient ∧ a.expiresAt = 600)
    ∧ ((Lts.execWhile (step localConfig) Undisturbed (init 0) collectingRun).getD
        (init 0)).table.Inverse
    ∧ ((Lts.execWhile (step localConfig) Undisturbed (init 0) collectingRun).getD
        (init 0)).CollectsExpired :=
  have h : (Lts.execWhile (step localConfig) Undisturbed (init 0) collectingRun).isSome = true := by
    decide +kernel
  have hr := Lts.reach_getD h
  ⟨⟨⟨someClient, relayAt 50000, ⟨.v4 #v[203, 0, 113, 1], 50000⟩, 600, 0⟩, by decide +kernel, rfl⟩,
    ((allocations_safe localConfig 0).1 _ (hr.mono (fun _ _ _ => trivial))).1,
    (allocations_safe localConfig 0).2 _ hr⟩

end Example

end TurnWorld

end Paranoia
