import Paranoia.Client.Corporate
import Paranoia.Proof.CorpBlob
import Paranoia.Proof.Dialogs

/-!
# Whose keys a company's are

Whatever the nodes answer and in whatever order, a key in a dialogue of a profile has been put there
by the user, or the panel has sealed it for the employee the profile belongs to and for the dialogue
with this very partner (`dealt_reachable`). That is so as long as an answer is made something of
while the profile is active it was fetched for: after a switch, the key goes to whoever is active.
-/

namespace Paranoia

/-! ## The entries there are -/

namespace Dialogs

variable {dialogs : List Dialog} {e : DialogKeyEntry}

theorem mem_keys_iff : e ∈ dialogs.flatMap Dialog.keyring ↔ ∃ d ∈ dialogs, e ∈ d.keyring :=
  List.mem_flatMap

theorem mem_keys_upsert {peer peerServerId : String} {sessionKey : List UInt8} {startSeq : UInt64}
    {resetKeyring : Bool}
    (h : e ∈ (upsertDialogKeyringEntry dialogs peer peerServerId sessionKey startSeq
      resetKeyring).flatMap Dialog.keyring) :
    e ∈ dialogs.flatMap Dialog.keyring ∨ e = ⟨startSeq, sessionKey, peerServerId⟩ := by
  unfold upsertDialogKeyringEntry at h
  split at h
  · exact .inl h
  · dsimp only at h
    split at h
    · rename_i i hfind
      obtain ⟨d, hd, -⟩ := findTarget_some hfind
      obtain ⟨c, hc, he⟩ := mem_keys_iff.mp h
      obtain ⟨j, hj⟩ := List.mem_iff_getElem?.mp hc
      rw [List.getElem?_modify] at hj
      obtain ⟨b, hb, rfl⟩ := Option.map_eq_some_iff.mp hj
      split at he
      · have he := mem_sorted.mp he
        have hkept : ∀ {e}, e ∈ (if resetKeyring then [] else b.keyring) → e ∈ b.keyring := by
          intro e he
          split at he
          · cases he
          · exact he
        have hold : e ∈ b.keyring → e ∈ dialogs.flatMap Dialog.keyring := fun hmem =>
          mem_keys_iff.mpr ⟨b, List.mem_of_getElem? hb, hmem⟩
        cases hreplace : replaceKey ⟨startSeq, sessionKey, peerServerId⟩
            (if resetKeyring then [] else b.keyring) with
        | none =>
            rw [hreplace, Option.getD_none] at he
            rcases List.mem_append.mp he with he | he
            · exact .inl (hold (hkept he))
            · exact .inr (List.mem_singleton.mp he)
        | some keyring =>
            rw [hreplace, Option.getD_some] at he
            rcases mem_replaceKey hreplace he with rfl | he
            · exact .inr rfl
            · exact .inl (hold (hkept he))
      · exact .inl (mem_keys_iff.mpr ⟨b, List.mem_of_getElem? hb, he⟩)
    · unfold opened at h
      rw [List.flatMap_append] at h
      rcases List.mem_append.mp h with h | h
      · exact .inl h
      · rw [List.flatMap_singleton] at h
        exact .inr (List.mem_singleton.mp h)

theorem keys_renameFrom (roster : List (String × String)) (before rest : List Dialog) :
    (renameFrom roster before rest).flatMap Dialog.keyring
      = (before ++ rest).flatMap Dialog.keyring := by
  induction rest generalizing before with
  | nil => rw [renameFrom, List.append_nil]
  | cons d rest ih =>
      have hkeyring : (renamed roster (before ++ rest) d).keyring = d.keyring := by
        unfold renamed
        dsimp only
        split
        · rfl
        · split
          · rfl
          · split <;> rfl
      rw [renameFrom, ih]
      simp only [List.flatMap_append, List.flatMap_cons, List.flatMap_nil, hkeyring,
        List.append_assoc, List.nil_append]

theorem keys_rosterNames (roster : List (String × String)) :
    (applyCorporateRosterNames dialogs roster).flatMap Dialog.keyring
      = dialogs.flatMap Dialog.keyring :=
  keys_renameFrom _ [] dialogs

theorem mem_keys_corporateKeyring {roster : List (String × String)} {keyring : List CorporateKey}
    (h : e ∈ (applyCorporateKeyring dialogs roster keyring).flatMap Dialog.keyring) :
    e ∈ dialogs.flatMap Dialog.keyring
      ∨ e.source ≠ "" ∧ (⟨e.source, e.key, e.startSeq⟩ : CorporateKey) ∈ keyring := by
  rw [← keys_rosterNames roster]
  unfold applyCorporateKeyring at h
  generalize applyCorporateRosterNames dialogs roster = dialogs at h ⊢
  induction keyring generalizing dialogs with
  | nil => exact .inl h
  | cons k keyring ih =>
      rcases ih _ h with h | ⟨hne, hmem⟩
      · unfold putCorporateKey at h
        split at h
        · exact .inl h
        · rename_i hok
          refine (mem_keys_upsert h).imp_right ?_
          rintro rfl
          exact ⟨fun hempty => hok (.inl hempty), List.mem_cons_self⟩
      · exact .inr ⟨hne, List.mem_cons_of_mem _ hmem⟩

end Dialogs

namespace Corp

variable [QtText] {dialogs : List Dialog} {partner label : String} {root : Json}

theorem mem_keys_putDialogueKey {e : DialogKeyEntry}
    (h : e ∈ (putDialogueKey dialogs partner label root).flatMap Dialog.keyring) :
    e ∈ dialogs.flatMap Dialog.keyring ∨ e = ⟨readStartSeq root, readKey root, partner⟩ := by
  unfold putDialogueKey at h
  split at h
  · exact .inl h
  · exact Dialogs.mem_keys_upsert h

theorem identified_putDialogueKey (h : Dialogs.Identified dialogs) :
    Dialogs.Identified (putDialogueKey dialogs partner label root) := by
  unfold putDialogueKey
  split
  · exact h
  · exact h.upsert ..

end Corp

namespace CorpWorld

open Corp

section Dealt

variable [ChaCha20Poly1305] [Hkdf] [QtText]
variable {configs : Nat → Option CorpConfig} {sealings : List Sealing}
variable {w w' : CorpWorld} {l : CorpLabel} {f : CorpFetch} {text : String}

/-- The panel has sealed the entry for the employee: on its own, for the dialogue it is in, or within
the whole keyring. -/
def DealtTo (sealings : List Sealing) (config : CorpConfig) (e : DialogKeyEntry) : Prop :=
  ∃ psk, decodeB64Bytes config.psk = some psk ∧ ∃ s ∈ sealings, ∃ text, s.plaintext = utf8 text
    ∧ (s.For psk config.serverId (ctxDialogue e.source)
        ∧ e.key = readKey (QtText.fromJson text)
        ∧ e.startSeq = readStartSeq (QtText.fromJson text)
      ∨ s.For psk config.serverId ctxKeyring
        ∧ (⟨e.source, e.key, e.startSeq⟩ : Dialogs.CorporateKey)
          ∈ keyringOf (QtText.fromJson text))

/-- A key of a profile comes from the user, or from the panel for this profile. -/
structure Genuine (configs : Nat → Option CorpConfig) (sealings : List Sealing) (w : CorpWorld) :
    Prop where
  keys : ∀ profile, ∀ e ∈ (w.dialogs profile).flatMap Dialog.keyring, e ∈ w.own profile
    ∨ e.source ≠ "" ∧ ∃ config, configs profile = some config ∧ DealtTo sealings config e
  identified : ∀ profile, Dialogs.Identified (w.dialogs profile)
  fetches : ∀ f ∈ w.fetches, configs f.profile = some f.config
  partners : ∀ f ∈ w.fetches, ∀ partner label, f.request = .dialogue partner label → partner ≠ ""

theorem genuine_init : Genuine configs sealings init where
  keys profile e he := by cases he
  identified profile := ⟨.nil, fun _ hd => absurd hd List.not_mem_nil⟩
  fetches f hf := by cases hf
  partners f hf := by cases hf

theorem Genuine.start (h : Genuine configs sealings w) (request : CorpRequest) :
    Genuine configs sealings (start configs w request) := by
  unfold CorpWorld.start
  split
  · exact h
  · rename_i profile hactive
    split
    · exact h
    · rename_i config hconfig
      split
      · rename_i partner label
        dsimp only
        split
        · exact h
        · rename_i hne
          refine ⟨h.keys, h.identified, fun f hf => ?_, fun f hf => ?_⟩
          · rcases List.mem_cons.mp hf with rfl | hf
            · exact hconfig
            · exact h.fetches f hf
          · rcases List.mem_cons.mp hf with rfl | hf
            · rintro p l hrequest
              cases hrequest
              exact hne
            · exact h.partners f hf
      · rename_i hother
        refine ⟨h.keys, h.identified, fun f hf => ?_, fun f hf => ?_⟩
        · rcases List.mem_cons.mp hf with rfl | hf
          · exact hconfig
          · exact h.fetches f hf
        · rcases List.mem_cons.mp hf with rfl | hf
          · intro p l hrequest
            exact absurd hrequest (hother p l)
          · exact h.partners f hf

/-- The dialogues of one profile change, by keys that the panel has dealt to it. -/
theorem Genuine.put (h : Genuine configs sealings w) {profile : Nat} {dialogs : List Dialog}
    {config : CorpConfig} (hconfig : configs profile = some config)
    (hidentified : Dialogs.Identified dialogs)
    (hkeys : ∀ e ∈ dialogs.flatMap Dialog.keyring, e ∈ (w.dialogs profile).flatMap Dialog.keyring
      ∨ e.source ≠ "" ∧ DealtTo sealings config e) :
    Genuine configs sealings { w with dialogs := Function.update w.dialogs profile dialogs } where
  keys p e he := by
    dsimp only at he ⊢
    by_cases hp : p = profile
    · subst hp
      rw [Function.update_self] at he
      rcases hkeys e he with he | ⟨hne, hdealt⟩
      · exact h.keys p e he
      · exact .inr ⟨hne, config, hconfig, hdealt⟩
    · rw [Function.update_of_ne hp] at he
      exact h.keys p e he
  identified p := by
    dsimp only
    by_cases hp : p = profile
    · subst hp
      rw [Function.update_self]
      exact hidentified
    · rw [Function.update_of_ne hp]
      exact h.identified p
  fetches := h.fetches
  partners := h.partners

theorem Genuine.edit (h : Genuine configs sealings w) {op : DialogsOp}
    (hok : ∀ profile, w.active = some profile → Dialogs.LoginKnown (w.dialogs profile) op)
    (hs : edit w op = some w') : Genuine configs sealings w' := by
  unfold CorpWorld.edit at hs
  split at hs
  · cases hs
  · cases hs
  · rename_i profile hactive hop
    obtain ⟨dialogs, hdialogs, rfl⟩ := Option.map_eq_some_iff.mp hs
    refine ⟨fun p e he => ?_, fun p => ?_, h.fetches, h.partners⟩
    · dsimp only at he ⊢
      by_cases hp : p = profile
      · subst hp
        rw [Function.update_self] at he ⊢
        by_cases hold : e ∈ (w.dialogs p).flatMap Dialog.keyring
        · exact (h.keys p e hold).imp_left (List.mem_append_left _)
        · refine .inl (List.mem_append_right _ (List.mem_filter.mpr ⟨he, ?_⟩))
          exact decide_eq_true hold
      · rw [Function.update_of_ne hp] at he ⊢
        exact h.keys p e he
    · dsimp only
      by_cases hp : p = profile
      · subst hp
        rw [Function.update_self]
        exact (h.identified p).step (hok p hactive) hdialogs
      · rw [Function.update_of_ne hp]
        exact h.identified p

/-- The text was sealed for the profile that is active. -/
theorem Genuine.apply (h : Genuine configs sealings w) {config : CorpConfig} {psk : List UInt8}
    {profile : Nat} {request : CorpRequest} {s : Sealing}
    (hactive : w.active = some profile) (hconfig : configs profile = some config)
    (hpsk : decodeB64Bytes config.psk = some psk) (hs : s ∈ sealings)
    (hfor : s.For psk config.serverId request.resource.context) (htext : s.plaintext = utf8 text)
    (hpartner : ∀ partner label, request = .dialogue partner label → partner ≠ "") :
    Genuine configs sealings (apply configs w request text) := by
  unfold CorpWorld.apply
  split
  · rename_i hnone
    rw [hnone] at hactive
    cases hactive
  rename_i profile' hactive'
  rw [hactive] at hactive'
  cases hactive'
  cases request with
  | keyring =>
      refine h.put hconfig ((h.identified profile).corporateKeyring _ _) (fun e he => ?_)
      refine (Dialogs.mem_keys_corporateKeyring he).imp_right (fun hmem => ⟨hmem.1, ?_⟩)
      exact ⟨psk, hpsk, s, hs, text, htext, .inr ⟨hfor, hmem.2⟩⟩
  | dialogue partner label =>
      refine h.put hconfig (identified_putDialogueKey (h.identified profile)) (fun e he => ?_)
      refine (mem_keys_putDialogueKey he).imp_right ?_
      rintro rfl
      exact ⟨hpartner partner label rfl, psk, hpsk, s, hs, text, htext, .inl ⟨hfor, rfl, rfl⟩⟩
  | roster =>
      have hput := h.put hconfig ((h.identified profile).rosterNames
        (rosterOf (QtText.fromJson text))) (fun e he => by
          rw [Dialogs.keys_rosterNames] at he
          exact .inl he)
      dsimp only
      split
      · exact hput
      · exact hput.start _

variable [SerdeJson]

/-- Something is made of an answer while the profile is active it was fetched for, and what the node
answers is not forged. A login knows the dialogue with oneself. -/
def Attended (sealings : List Sealing) (w : CorpWorld) : CorpLabel → Prop
  | .edit op => ∀ profile, w.active = some profile → Dialogs.LoginKnown (w.dialogs profile) op
  | .answer f answer => w.active = some f.profile
      ∧ ∀ psk, decodeB64Bytes f.config.psk = some psk →
        Corp.Unforged sealings psk f.config.serverId f.config.signingKey answer
  | _ => True

theorem Genuine.step (h : Genuine configs sealings w)
    (hown : ∀ profile config psk, configs profile = some config →
      decodeB64Bytes config.psk = some psk → OwnKey sealings psk config.serverId)
    (hok : Attended sealings w l) (hs : step configs w l = some w') :
    Genuine configs sealings w' := by
  cases l with
  | activate profile =>
      cases hs
      exact ⟨h.keys, h.identified, h.fetches, h.partners⟩
  | edit op => exact h.edit hok hs
  | request request =>
      cases hs
      exact h.start request
  | answer f answer =>
      rw [CorpWorld.step] at hs
      split at hs
      · rename_i hf
        have hconfig := h.fetches f hf
        have hrest : Genuine configs sealings { w with fetches := w.fetches.erase f } :=
          ⟨h.keys, h.identified, fun g hg => h.fetches g (List.mem_of_mem_erase hg),
            fun g hg => h.partners g (List.mem_of_mem_erase hg)⟩
        dsimp only at hs
        split at hs
        · cases hs
          exact hrest
        · rename_i text htext
          cases hs
          obtain ⟨hactive, hunforged⟩ := hok
          unfold textOf at htext
          split at htext
          · cases htext
          · rename_i text' hfetch
            split at htext
            · cases htext
            · rename_i hsome
              cases htext
              cases hpsk : decodeB64Bytes f.config.psk with
              | none =>
                  unfold Corp.fetch at hfetch
                  rw [hpsk] at hfetch
                  cases hfetch
              | some psk =>
                  obtain ⟨s, hs, hfor, hplain⟩ := (fetch_intact hpsk
                    (hown _ _ _ hconfig hpsk) (hunforged psk hpsk) hfetch).resolve_left hsome
                  exact hrest.apply hactive hconfig hpsk hs hfor hplain (h.partners f hf)
      · cases hs

/-- **A company's key is for the profile it is in**, and for the dialogue it is in. -/
theorem dealt_reachable
    (hown : ∀ profile config psk, configs profile = some config →
      decodeB64Bytes config.psk = some psk → OwnKey sealings psk config.serverId)
    (hr : Lts.Reach (step configs) (Attended sealings) init w) {profile : Nat} {d : Dialog}
    (hd : d ∈ w.dialogs profile) {e : DialogKeyEntry} (he : e ∈ d.keyring) :
    e ∈ w.own profile
      ∨ d.peerServerId = e.source
        ∧ ∃ config, configs profile = some config ∧ DealtTo sealings config e := by
  have h : Genuine configs sealings w :=
    hr.invariant genuine_init (fun _ _ _ _ hi hok hs => hi.step hown hok hs)
  refine (h.keys profile e (Dialogs.mem_keys_iff.mpr ⟨d, hd, he⟩)).imp_right ?_
  rintro ⟨hne, hdealt⟩
  exact ⟨(h.identified profile).keyed d hd e he hne, hdealt⟩

end Dealt

section Example

/-- Reads a key, and nothing else. -/
instance keyText : QtText where
  fromJson text :=
    if text.toList.take 8 = "\x7b\"key\":\"".toList then
      .obj [("key", .str (String.ofList (text.toList.drop 8).dropLast.dropLast))]
    else .obj []
  toU64 text := UInt64.ofNat ((Decimal.read? text.toList).getD 0)
  fromBase64 text := ((decodeB64 text.toList).getD []).map UInt8.ofNat

/-- The key of the dialogue with "p", for the employee "s". -/
def dealtText : String :=
  "\x7b\"key\":\"" ++ String.ofList (encodeB64 (List.replicate 32 2)) ++ "\"\x7d"

def dealtBlob : List UInt8 :=
  match sealBlob [1] "s" 7 (ctxDialogue "p") (utf8 dealtText) (.replicate 12 0) with
  | .ok blob => blob
  | .error _ => []

theorem sealed_dealt :
    sealBlob [1] "s" 7 (ctxDialogue "p") (utf8 dealtText) (.replicate 12 0) = .ok dealtBlob := by
  decide +kernel

def dealtSealing : Sealing where
  psk := [1]
  serverId := "s"
  version := 7
  context := ctxDialogue "p"
  plaintext := utf8 dealtText
  nonce := .replicate 12 0
  blob := dealtBlob
  sealed := sealed_dealt

def dealtConfig : CorpConfig where
  serverId := "s"
  signingKey := String.ofList (encodeB64 (List.replicate 32 0))
  psk := String.ofList (encodeB64 [1])

/-- Only the first profile is of a company. -/
def dealtConfigs : Nat → Option CorpConfig
  | 0 => some dealtConfig
  | _ => none

def dealtFetch : CorpFetch := ⟨0, dealtConfig, .dialogue "p" "Petya"⟩

def dealtAsked : CorpWorld :=
  (Lts.exec (step dealtConfigs) init
    [.activate (some 0), .request (.dialogue "p" "Petya")]).getD init

def dealtWorld : CorpWorld :=
  (step dealtConfigs dealtAsked (.answer dealtFetch dealtSealing.kept)).getD init

theorem textOf_dealt : textOf dealtFetch dealtSealing.kept = some dealtText := by
  have hfetch : Corp.fetch dealtFetch.request.resource dealtFetch.config.serverId
      dealtFetch.config.signingKey dealtFetch.config.psk dealtSealing.kept = .ok dealtText :=
    (fetch_sealed (LargeFile.decodeB64Bytes_encode _) List.length_replicate
      (LargeFile.decodeB64Bytes_encode _) (ownKey_singleton dealtSealing)).2 dealtSealing
      List.mem_cons_self ⟨rfl, rfl, rfl⟩ rfl
  have hsome : dealtText ≠ "" := by decide
  rw [textOf, hfetch]
  dsimp only
  rw [if_neg hsome]

/-- The text goes to the profile that is active. -/
theorem step_dealt {w : CorpWorld} (hw : dealtFetch ∈ w.fetches) :
    step dealtConfigs w (.answer dealtFetch dealtSealing.kept)
      = some (apply dealtConfigs { w with fetches := w.fetches.erase dealtFetch } dealtFetch.request
          dealtText) := by
  rw [step, if_pos hw]
  dsimp only
  rw [textOf_dealt]

theorem mem_dealtAsked : dealtFetch ∈ dealtAsked.fetches := List.mem_singleton.mpr rfl

theorem exec_dealt {w : CorpWorld} (hw : dealtFetch ∈ w.fetches) (profile : Option Nat) :
    Lts.exec (step dealtConfigs) w [.activate profile, .answer dealtFetch dealtSealing.kept]
      = some (apply dealtConfigs ⟨profile, w.dialogs, w.fetches.erase dealtFetch, w.own⟩
          dealtFetch.request dealtText) := by
  have hstep := step_dealt (w := { w with active := profile }) hw
  rw [Lts.exec, step]
  dsimp only
  rw [Lts.exec, hstep]
  dsimp only
  rw [Lts.exec]

/-- An answer that is fetched for one profile goes to another one, which is of no company. -/
example :
    (Lts.exec (step dealtConfigs) dealtAsked [.activate (some 1),
        .answer dealtFetch dealtSealing.kept]).map (fun w =>
      ((w.dialogs 0).map Dialog.peer, (w.dialogs 1).map Dialog.peer, w.own 1))
      = some ([], ["Petya"], []) := by
  rw [exec_dealt mem_dealtAsked]
  decide +kernel

theorem dealt_reachable_petya :
    ∃ d ∈ dealtWorld.dialogs 0, ∃ e ∈ d.keyring, d.peerServerId = e.source
      ∧ ∃ config, dealtConfigs 0 = some config ∧ DealtTo [dealtSealing] config e := by
  have hown : ∀ profile config psk, dealtConfigs profile = some config →
      decodeB64Bytes config.psk = some psk → OwnKey [dealtSealing] psk config.serverId := by
    intro profile config psk hconfig hpsk
    cases profile with
    | zero =>
        cases hconfig
        rw [dealtConfig, LargeFile.decodeB64Bytes_encode] at hpsk
        cases hpsk
        exact ownKey_singleton dealtSealing
    | succ profile => cases hconfig
  have hunforged : ∀ psk, decodeB64Bytes dealtConfig.psk = some psk →
      Corp.Unforged [dealtSealing] psk "s" dealtConfig.signingKey dealtSealing.kept := by
    intro psk hpsk blob hblob
    rw [dealtConfig, LargeFile.decodeB64Bytes_encode] at hpsk
    cases hpsk
    have hkept : fetchBlob dealtConfig.signingKey dealtSealing.kept = .ok (some dealtSealing.blob) :=
      fetchBlob_kept _ (LargeFile.decodeB64Bytes_encode _) List.length_replicate
    rw [hkept] at hblob
    cases hblob
    exact unforgedBlob_shown dealtSealing
  have hstep := step_dealt mem_dealtAsked
  have hworld : dealtWorld = apply dealtConfigs
      { dealtAsked with fetches := dealtAsked.fetches.erase dealtFetch } dealtFetch.request
      dealtText := by
    rw [dealtWorld, hstep, Option.getD_some]
  have hasked : Lts.Reach (step dealtConfigs) (Attended [dealtSealing]) init dealtAsked :=
    .tail (.tail .refl (l := .activate (some 0)) trivial rfl)
      (l := .request (.dialogue "p" "Petya")) trivial rfl
  have hr : Lts.Reach (step dealtConfigs) (Attended [dealtSealing]) init dealtWorld :=
    .tail hasked (l := .answer dealtFetch dealtSealing.kept) ⟨rfl, hunforged⟩ (hworld ▸ hstep)
  have hkeys : (dealtWorld.dialogs 0).map (fun d => (d.keyring, dealtWorld.own 0))
      = [([⟨1, List.replicate 32 2, "p"⟩], [])] := by
    rw [hworld]
    decide +kernel
  obtain ⟨d, hd, hdkeys⟩ := List.mem_map.mp (hkeys ▸ List.mem_singleton.mpr rfl)
  obtain ⟨hkeyring, hnone⟩ := Prod.mk.inj hdkeys
  have he : (⟨1, List.replicate 32 2, "p"⟩ : DialogKeyEntry) ∈ d.keyring := by
    rw [hkeyring]
    exact List.mem_singleton.mpr rfl
  refine ⟨d, hd, _, he, (dealt_reachable hown hr hd he).resolve_left (fun hmem => ?_)⟩
  rw [hnone] at hmem
  cases hmem

end Example

end CorpWorld

end Paranoia
