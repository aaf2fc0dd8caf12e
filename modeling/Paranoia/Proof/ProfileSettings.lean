import Paranoia.Client.ProfileSettings

/-!
# Which settings an operation touches

One lemma says what the function that writes the settings makes of settings that are in form; each
operation then is a question of what it is given.
-/

namespace Paranoia

namespace ProfileSettings

variable {rules : AddressRules} {w : ProfileSettings} {op : SettingsOp}

/-- What is written of the settings of the profile itself. -/
theorem client_save (h : Settled rules w.client) (username : String) (reserves turn : List String) :
    (w.saveClientConfigForProfile rules w.client.server username w.client.serverId
      w.client.privateKey reserves turn).client
    = { w.client with
        username := username
        reserveServerUrls := rules.normalizedServerUrls reserves w.client.server
        turnServerUrls := turn.filter (· ≠ "") } := by
  unfold saveClientConfigForProfile
  rw [if_neg (not_or.mpr ⟨h.server.1, h.privateKey⟩), h.server.2]

@[simp] theorem client_login (w : ProfileSettings) (server username privateKey : String)
    (reserves : List String) (connectionMeta : List (String × String)) :
    (w.loginClientInternal rules server username privateKey reserves connectionMeta).client
      = w.client := by
  unfold loginClientInternal
  dsimp only
  split <;> rfl

theorem filter_turn (h : Settled rules w.client) :
    w.client.turnServerUrls.filter (· ≠ "") = w.client.turnServerUrls :=
  List.filter_eq_self.mpr fun _ ha => decide_eq_true fun heq => h.turn.2 (heq ▸ ha)

theorem client_saveTurn (h : Settled rules w.client) {list : List String} (hlist : "" ∉ list) :
    (w.saveTurn rules list).client = { w.client with turnServerUrls := list } := by
  have hfilter : list.filter (· ≠ "") = list :=
    List.filter_eq_self.mpr fun _ ha => decide_eq_true fun heq => hlist (heq ▸ ha)
  refine (client_save h _ _ _).trans ?_
  rw [hfilter, h.reserves, h.reserves]

/-- Nothing is touched but what is to be. -/
theorem Framed.of_client (username : String)
    (hclient : (w.apply rules op).client = { w.client with
      username := username
      reserveServerUrls := reserveEdit rules w.client.server w.client.reserveServerUrls op
      turnServerUrls := turnEdit rules w.client.turnServerUrls op
      metadata := putMeta w.client.metadata (w.brings op) })
    (hname : ¬ Renames op → username = w.client.username) : w.Framed rules op where
  turn := hclient ▸ rfl
  reserves := hclient ▸ rfl
  metadata := hclient ▸ rfl
  username h := by
    rw [hclient]
    exact hname h
  server := hclient ▸ rfl
  serverId := hclient ▸ rfl
  privateKey := hclient ▸ rfl

theorem framed_addTurn (h : Settled rules w.client) (url : String) : w.Framed rules (.addTurn url) := by
  have hclient : (w.apply rules (.addTurn url)).client
      = { w.client with turnServerUrls := turnEdit rules w.client.turnServerUrls (.addTurn url) } := by
    unfold apply turnEdit addTurnServer
    dsimp only
    rw [h.turn.1]
    by_cases hrefused : rules.normalizeTurnUrl url = ""
        ∨ w.client.turnServerUrls.any (rules.Same (rules.normalizeTurnUrl url)) = true
    · rw [if_pos (hrefused.imp_right .inr), if_pos hrefused]
    · have hkept := not_or.mp hrefused
      rw [if_neg (not_or.mpr ⟨hkept.1, not_or.mpr ⟨h.server.1, hkept.2⟩⟩), if_neg hrefused]
      refine client_saveTurn h fun hmem => ?_
      rcases List.mem_append.mp hmem with hmem | hmem
      · exact h.turn.2 hmem
      · exact hkept.1 (List.mem_singleton.mp hmem).symm
  exact .of_client w.client.username hclient fun _ => rfl

theorem framed_removeTurn (h : Settled rules w.client) (url : String) :
    w.Framed rules (.removeTurn url) := by
  have hclient : (w.apply rules (.removeTurn url)).client
      = { w.client with turnServerUrls := turnEdit rules w.client.turnServerUrls (.removeTurn url) } := by
    unfold apply turnEdit removeTurnServer
    dsimp only
    rw [h.turn.1]
    by_cases hempty : rules.normalizeTurnUrl url = ""
    · rw [if_pos (.inl hempty), if_pos hempty]
    · rw [if_neg hempty]
      split
      · -- nothing is found, so the list stays
        rename_i hnone
        have hlen := (hnone.resolve_left hempty).resolve_left h.server.1
        rw [List.length_filter_eq_length_iff] at hlen
        rw [List.filter_eq_self.mpr hlen]
      · exact client_saveTurn h fun hmem => h.turn.2 (List.mem_of_mem_filter hmem)
  exact .of_client w.client.username hclient fun _ => rfl

/-! ## Reserve servers -/

/-- What an edit of the reserve servers makes of the settings, if it is not refused. -/
theorem client_editReserve (h : Settled rules w.client) (hs : w.SessionReserves rules)
    (domain : String) {refused : String → String → List String → Bool}
    {edit : List String → String → String → List String} :
    (w.editReserve rules domain refused edit).client
      = if refused (rules.normalizedServerUrl domain) w.client.server w.client.reserveServerUrls then
          w.client
        else { w.client with
          reserveServerUrls := rules.normalizedServerUrls (edit w.client.reserveServerUrls
            w.client.server (rules.normalizedServerUrl domain)) w.client.server
          turnServerUrls := [] } := by
  have hreserves : rules.normalizedServerUrls (rules.normalizedServerUrls w.client.reserveServerUrls
      w.client.server ++ (w.session.map (·.reserveServerUrls)).getD []) w.client.server
      = w.client.reserveServerUrls := by
    rw [h.reserves]
    cases hsession : w.session with
    | none =>
        rw [Option.map_none, Option.getD_none, List.append_nil]
        exact h.reserves
    | some s => exact (hs s hsession).1
  have hserver : orElse w.client.server (w.session.map (·.server)) = w.client.server :=
    if_neg h.server.1
  have hkey : ∀ b, orElse w.client.privateKey b = w.client.privateKey := fun _ => if_neg h.privateKey
  have hid : ∀ b, orElse w.client.serverId b = w.client.serverId := fun _ => if_neg h.serverId.1
  have hname : orElse w.client.username (w.session.map (·.username)) = w.client.username := by
    unfold orElse
    split
    · rename_i hnone
      cases hsession : w.session with
      | none => exact hnone.symm
      | some s => exact ((hs s hsession).2 hnone).trans hnone.symm
    · rfl
  unfold editReserve
  dsimp only
  rw [hserver, hkey, hid, hname, h.server.2, hreserves, if_neg (not_or.mpr ⟨h.server.1, h.privateKey⟩),
    if_neg h.serverId.1]
  by_cases hrefused : refused (rules.normalizedServerUrl domain) w.client.server
      w.client.reserveServerUrls = true
  · rw [if_pos (.inl hrefused), if_pos hrefused]
  · rw [if_neg (not_or.mpr ⟨hrefused, h.serverId.1⟩), if_neg hrefused]
    split
    · rw [client_login, client_save h]
      rfl
    · exact client_save h ..

theorem framed_addReserve (h : Settled rules w.client) (hs : w.SessionReserves rules)
    {domain : String} (hturn : w.client.turnServerUrls = [] ∨ addRefused
      (rules.normalizedServerUrl domain) w.client.server w.client.reserveServerUrls = true) :
    w.Framed rules (.addReserve domain) := by
  refine .of_client w.client.username ?_ fun _ => rfl
  refine (client_editReserve h hs domain).trans ?_
  unfold reserveEdit turnEdit
  dsimp only
  split
  · rfl
  · rename_i hkept
    rw [hturn.resolve_right hkept]
    rfl

theorem framed_removeReserve (h : Settled rules w.client) (hs : w.SessionReserves rules)
    {domain : String} (hturn : w.client.turnServerUrls = [] ∨ removeRefused
      (rules.normalizedServerUrl domain) w.client.server w.client.reserveServerUrls = true) :
    w.Framed rules (.removeReserve domain) := by
  refine .of_client w.client.username ?_ fun _ => rfl
  refine (client_editReserve h hs domain).trans ?_
  unfold reserveEdit turnEdit
  dsimp only
  split
  · rfl
  · rename_i hkept
    rw [hturn.resolve_right hkept]
    rfl

/-! ## Logins, bundles and names -/

theorem framed_activateProfile : w.Framed rules .activateProfile := by
  refine .of_client w.client.username ?_ fun _ => rfl
  unfold apply activateProfile
  dsimp only
  split
  · rfl
  · rw [client_login]
    rfl

theorem framed_loginClient (username : String) (reserves : List String)
    (connectionMeta : List (String × String)) :
    w.Framed rules (.loginClient username reserves connectionMeta) :=
  .of_client w.client.username ((client_login ..).trans rfl) fun _ => rfl

theorem framed_loginDone (h : Settled rules w.client) {i : Nat} {handleOk : Bool}
    (hagrees : handleOk = true → ∀ login, w.logins[i]? = some login →
      Agrees login.settings w.client ∧ login.settings.username = w.client.username) :
    w.Framed rules (.loginDone i handleOk) := by
  refine .of_client w.client.username ?_ fun _ => rfl
  unfold apply brings
  cases handleOk with
  | false =>
      dsimp only
      cases w.logins[i]? <;> rfl
  | true =>
      dsimp only
      cases hlogin : w.logins[i]? with
      | none => rfl
      | some login =>
          obtain ⟨⟨hserver, hid, hkey, hreserves, hturn⟩, hname⟩ := hagrees rfl login hlogin
          have hsave := client_save (w := { w with
            logins := w.logins.eraseIdx i, session := some login.settings }) h w.client.username
            w.client.reserveServerUrls w.client.turnServerUrls
          rw [filter_turn h, h.reserves] at hsave
          unfold loginDone
          dsimp only
          rw [if_pos rfl, hserver, hid, hkey, hreserves, hturn, hname, hsave]
          rfl

theorem framed_import (h : Settled rules w.client) (hturn : w.client.turnServerUrls = [])
    (username : String) (reserves : List String) (metadata : List (String × String))
    (activate : Bool) : w.Framed rules (.importBundle username reserves metadata activate) := by
  refine .of_client (rules.trimmed username) ?_ fun hname => absurd trivial hname
  have hsave := client_save h (rules.trimmed username) (rules.normalizedServerUrls
    (rules.normalizedServerUrls reserves w.client.server ++ w.client.reserveServerUrls)
    w.client.server) []
  have hnone : ([] : List String).filter (· ≠ "") = w.client.turnServerUrls := hturn.symm
  rw [hnone] at hsave
  unfold apply applyImportedPayload
  dsimp only
  rw [h.reserves, h.serverId.2]
  split
  · rw [client_login]
    dsimp only
    rw [hsave]
    rfl
  · dsimp only
    rw [hsave]
    rfl

theorem framed_corporateName (h : Settled rules w.client) {fullName : String}
    (hagrees : ∀ s, w.session = some s → rules.trimmed fullName = ""
      ∨ s.username = rules.trimmed fullName ∨ Agrees s w.client) :
    w.Framed rules (.corporateName fullName) := by
  have hclient : ∃ username, (w.apply rules (.corporateName fullName)).client
      = { w.client with username := username } := by
    unfold apply applyCorporateSelfName
    dsimp only
    cases hsession : w.session with
    | none => exact ⟨w.client.username, rfl⟩
    | some s =>
        dsimp only
        split
        · exact ⟨w.client.username, rfl⟩
        · rename_i hkept
          obtain ⟨hempty, hsame⟩ := not_or.mp hkept
          obtain ⟨hserver, hid, hkey, hreserves, hturn⟩ :=
            ((hagrees s hsession).resolve_left hempty).resolve_left hsame
          have hsave : ∀ session : Option SessionSettings,
              (({ w with session := session } : ProfileSettings).saveClientConfigForProfile rules
                w.client.server (rules.trimmed fullName) w.client.serverId w.client.privateKey
                w.client.reserveServerUrls w.client.turnServerUrls).client
              = { w.client with username := rules.trimmed fullName } := by
            intro session
            refine (client_save (w := { w with session := session }) h ..).trans ?_
            dsimp only
            rw [filter_turn h, h.reserves]
          refine ⟨rules.trimmed fullName, ?_⟩
          rw [← hsave, hserver, hid, hkey, hreserves, hturn]
  obtain ⟨username, hclient⟩ := hclient
  exact .of_client username (hclient.trans rfl) fun hname => absurd trivial hname

/-! ## Runs -/

/-- **One operation.** -/
theorem framed_of_stepOk (h : w.StepOk rules op) : w.Framed rules op := by
  obtain ⟨hsettled, hop⟩ := h
  cases op with
  | addReserve domain => exact framed_addReserve hsettled hop.1 hop.2
  | removeReserve domain => exact framed_removeReserve hsettled hop.1 hop.2
  | addTurn url => exact framed_addTurn hsettled url
  | removeTurn url => exact framed_removeTurn hsettled url
  | activateProfile => exact framed_activateProfile
  | loginClient username reserves connectionMeta =>
      exact framed_loginClient username reserves connectionMeta
  | loginDone i handleOk => exact framed_loginDone hsettled hop
  | importBundle username reserves metadata activate =>
      exact framed_import hsettled hop username reserves metadata activate
  | corporateName fullName => exact framed_corporateName hsettled hop

/-- **Edits touch their own setting**: in a run whose operations meet the condition each of them
leaves every other setting as it was, the TURN servers in the end are what the operations on them
make of those at the beginning, and so are the reserve servers. -/
theorem edits_framed (rules : AddressRules) (w : ProfileSettings) (ops : List SettingsOp)
    (hok : ∀ pre op post, ops = pre ++ op :: post → (w.run rules pre).StepOk rules op) :
    (∀ pre op post, ops = pre ++ op :: post → (w.run rules pre).Framed rules op)
    ∧ (w.run rules ops).client.turnServerUrls
        = ops.foldl (turnEdit rules) w.client.turnServerUrls
    ∧ (w.run rules ops).client.reserveServerUrls
        = ops.foldl (reserveEdit rules w.client.server) w.client.reserveServerUrls := by
  refine ⟨fun pre op post hsplit => framed_of_stepOk (hok pre op post hsplit), ?_⟩
  induction ops generalizing w with
  | nil => exact ⟨rfl, rfl⟩
  | cons op ops ih =>
      have hfirst := framed_of_stepOk (hok [] op ops rfl)
      obtain ⟨hturn, hreserves⟩ := ih (w.apply rules op) fun pre op' post hsplit =>
        hok (op :: pre) op' post (hsplit ▸ rfl)
      refine ⟨?_, ?_⟩
      · exact hturn.trans (congrArg (fun list => ops.foldl (turnEdit rules) list) hfirst.turn)
      · refine hreserves.trans ?_
        rw [show (w.apply rules op).client.server = w.client.server from hfirst.server,
          show (w.apply rules op).client.reserveServerUrls = _ from hfirst.reserves]
        rfl

/-! ## A profile with a TURN server -/

/-- Addresses that are in form already. -/
def plainRules : AddressRules := ⟨fun s => s, fun s => s, fun s => s, fun s => s, fun s => s⟩

def plainProfile (turn : List String) : ProfileSettings :=
  ⟨⟨"https://a.org", "alice", "key", "key", [], turn, [("tariff", "basic")]⟩, none, []⟩

def plainOps : List SettingsOp := [.addReserve "https://b.org", .addTurn "t.org:3478"]

/-- A reserve server while there is no TURN server, then a TURN server. -/
theorem edits_framed_plainProfile :
    ((plainProfile []).run plainRules plainOps).client.turnServerUrls = ["t.org:3478"]
      ∧ ((plainProfile []).run plainRules plainOps).client.reserveServerUrls = ["https://b.org"] := by
  obtain ⟨-, hturn, hreserves⟩ := edits_framed plainRules (plainProfile []) plainOps
    fun pre op post hsplit => by
      match pre with
      | [] =>
          obtain ⟨rfl, -⟩ := List.cons.inj hsplit
          refine ⟨by constructor <;> decide, And.intro (fun s hs => ?_) (Or.inl rfl)⟩
          cases hs
      | [first] =>
          obtain ⟨rfl, hrest⟩ := List.cons.inj hsplit
          obtain ⟨rfl, -⟩ := List.cons.inj hrest
          exact ⟨by constructor <;> decide, trivial⟩
      | [_, _] => simp [plainOps] at hsplit
      | _ :: _ :: _ :: _ => simp [plainOps] at hsplit
  exact ⟨hturn.trans (by decide), hreserves.trans (by decide)⟩

/-- A reserve server takes the TURN servers away. -/
theorem turn_erased :
    ¬ ∀ (rules : AddressRules) (w : ProfileSettings) (op : SettingsOp), Settled rules w.client →
      w.Framed rules op := by
  intro h
  have hframed := h plainRules (plainProfile ["t.org:3478"]) (.addReserve "https://b.org")
    (by constructor <;> decide)
  exact absurd hframed.turn (by decide)

end ProfileSettings

end Paranoia
