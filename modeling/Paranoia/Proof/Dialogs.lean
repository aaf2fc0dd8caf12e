import Mathlib.Data.List.Nodup
import Paranoia.Client.Dialogs
import Paranoia.Lib.Lts
import Paranoia.Lib.Tasks

/-!
# Whose key is in which dialogue

What changes the dialogues of a profile looks for the server id first and takes a label that nobody
has, so no two dialogues have one label or one server id, and each key is with the peer it was
obtained for. The login alone goes by the label: once the roster has renamed the dialogue with
oneself, the next login adds another one (`identity_lost`). Where a login finds its dialogue, or no
dialogue has its server id, every change keeps them apart (`identified_reachable`).
-/

namespace Paranoia

/-- Two dialogues that nothing confuses. -/
def Dialog.Apart (a b : Dialog) : Prop :=
  a.peer ≠ b.peer ∧ (a.peerServerId = b.peerServerId → a.peerServerId = "")

theorem Dialog.Apart.symm {a b : Dialog} (h : a.Apart b) : b.Apart a :=
  ⟨h.1.symm, fun heq => heq.trans (h.2 heq.symm)⟩

/-- Every key is with the one it was obtained for. -/
def Dialog.Keyed (d : Dialog) : Prop := ∀ e ∈ d.keyring, e.source ≠ "" → d.peerServerId = e.source

namespace Dialogs

structure Identified (dialogs : List Dialog) : Prop where
  apart : dialogs.Pairwise Dialog.Apart
  keyed : ∀ d ∈ dialogs, d.Keyed

variable {dialogs : List Dialog} {peer peerServerId : String} {d : Dialog} {i : Nat}

/-! ## Labels -/

theorem labelTaken_iff {candidate : String} :
    labelTaken dialogs candidate = true ↔ ∃ d ∈ dialogs, d.peer = candidate := by
  simp [labelTaken]

theorem labelTaken_eq_false {candidate : String} :
    labelTaken dialogs candidate = false ↔ ∀ d ∈ dialogs, d.peer ≠ candidate := by
  simp [labelTaken]

theorem numbered_injective (peer : String) : Function.Injective (numbered peer) := by
  intro m n h
  have htext := congrArg String.toList h
  simp only [numbered, labelled, String.toList_append, String.toList_ofList,
    List.append_cancel_left_eq, List.append_cancel_right_eq] at htext
  exact Decimal.numeral_injective htext

/-- Where every label that was tried is taken, so were all the numbered ones. -/
theorem nextLabel_taken {k n : Nat} {label : String}
    (h : labelTaken dialogs (nextLabel dialogs peer k n label) = true) :
    ∀ m, n ≤ m → m + 1 < n + k → labelTaken dialogs (numbered peer m) = true := by
  induction k generalizing n label with
  | zero => intro m hle hlt; omega
  | succ k ih =>
      rw [nextLabel] at h
      split at h
      · intro m hle hlt
        rcases Nat.eq_or_lt_of_le hle with rfl | hlt'
        · cases k with
          | zero => omega
          | succ k =>
              by_contra hfree
              rw [nextLabel, if_neg hfree] at h
              exact hfree h
        · exact ih h m hlt' (by omega)
      · rename_i hfree
        exact absurd h hfree

theorem nextLabel_free (label : String) :
    labelTaken dialogs (nextLabel dialogs peer (dialogs.length + 2) 2 label) = false := by
  by_contra htaken
  have hall := nextLabel_taken (Bool.of_not_eq_false htaken)
  have hnodup : ((List.range (dialogs.length + 1)).map fun k => numbered peer (k + 2)).Nodup :=
    List.nodup_range.map fun a b hab => by
      have := numbered_injective peer hab
      omega
  have hsub : ((List.range (dialogs.length + 1)).map fun k => numbered peer (k + 2))
      ⊆ dialogs.map Dialog.peer := by
    intro label hlabel
    obtain ⟨k, hk, rfl⟩ := List.mem_map.mp hlabel
    have hlt := List.mem_range.mp hk
    obtain ⟨d, hd, hpeer⟩ := labelTaken_iff.mp (hall (k + 2) (by omega) (by omega))
    exact List.mem_map.mpr ⟨d, hd, hpeer⟩
  have hle := (List.subperm_of_subset hnodup hsub).length_le
  simp only [List.length_map, List.length_range] at hle
  omega

/-- The label of a new dialogue is free. -/
theorem newLabel_free : labelTaken dialogs (newLabel dialogs peer peerServerId) = false := by
  unfold newLabel
  split
  · exact nextLabel_free _
  · rename_i hfree
    exact Bool.of_not_eq_true hfree

/-! ## Finding a dialogue -/

/-- What was found has this server id, or this label and no other server id. -/
theorem findTarget_some (h : findTarget dialogs peer peerServerId = some i) :
    ∃ d, dialogs[i]? = some d ∧ (d.peerServerId = peerServerId
      ∨ d.peerServerId = "" ∧ ∀ c ∈ dialogs, c.peerServerId ≠ peerServerId) := by
  unfold findTarget at h
  split at h
  · rename_i j hj
    cases h
    split at hj
    · cases hj
    · obtain ⟨hlt, hid, -⟩ := List.findIdx?_eq_some_iff_getElem.mp hj
      exact ⟨_, List.getElem?_eq_getElem hlt, .inl (of_decide_eq_true hid)⟩
  · rename_i hnone
    obtain ⟨hlt, hfound, -⟩ := List.findIdx?_eq_some_iff_getElem.mp h
    refine ⟨_, List.getElem?_eq_getElem hlt, ?_⟩
    rcases (of_decide_eq_true hfound).2 with hempty | hid
    · by_cases hs : peerServerId = ""
      · exact .inl (hempty.trans hs.symm)
      · rw [if_neg hs] at hnone
        refine .inr ⟨hempty, fun c hc => ?_⟩
        simpa using List.findIdx?_eq_none_iff.mp hnone c hc
    · exact .inl hid

theorem findTarget_none (h : findTarget dialogs peer peerServerId = none) (hs : peerServerId ≠ "") :
    ∀ c ∈ dialogs, c.peerServerId ≠ peerServerId := by
  unfold findTarget at h
  rw [if_neg hs] at h
  split at h
  · cases h
  · rename_i hnone
    intro c hc
    simpa using List.findIdx?_eq_none_iff.mp hnone c hc

@[simp]
theorem bind_peer : (bind d peerServerId).peer = d.peer := by
  unfold bind
  split <;> rfl

theorem bind_peerServerId (h : d.peerServerId = peerServerId ∨ d.peerServerId = "") :
    (bind d peerServerId).peerServerId = peerServerId := by
  unfold bind
  split
  · rename_i hs
    rcases h with h | h
    · exact h
    · exact h.trans hs.symm
  · rfl

/-! ## Keyrings -/

theorem mem_sorted {e : DialogKeyEntry} {keyring : List DialogKeyEntry} :
    e ∈ sorted keyring ↔ e ∈ keyring := List.mem_insertionSort _

theorem mem_replaceKey {entry e : DialogKeyEntry} {keyring keyring' : List DialogKeyEntry}
    (h : replaceKey entry keyring = some keyring') (he : e ∈ keyring') :
    e = entry ∨ e ∈ keyring := by
  induction keyring generalizing keyring' with
  | nil => cases h
  | cons a keyring ih =>
      rw [replaceKey] at h
      split at h
      · cases h
        exact (List.mem_cons.mp he).imp_right (List.mem_cons_of_mem _)
      · obtain ⟨rest, hrest, rfl⟩ := Option.map_eq_some_iff.mp h
        rcases List.mem_cons.mp he with rfl | he
        · exact .inr List.mem_cons_self
        · exact (ih hrest he).imp_right (List.mem_cons_of_mem _)

/-! ## What each change keeps -/

/-- One dialogue gets its server id, which nobody else has, and keys of that peer. -/
theorem Identified.modify (h : Identified dialogs) {f : Dialog → Dialog} (hd : dialogs[i]? = some d)
    (hfound : d.peerServerId = peerServerId
      ∨ d.peerServerId = "" ∧ ∀ c ∈ dialogs, c.peerServerId ≠ peerServerId)
    (hpeer : (f d).peer = d.peer) (hid : (f d).peerServerId = peerServerId)
    (hkeys : ∀ e ∈ (f d).keyring, e ∈ d.keyring ∨ e.source = peerServerId) :
    Identified (dialogs.modify i f) := by
  have hset : dialogs.modify i f = dialogs.set i (f d) := by
    rw [List.modify_eq_set_getElem?, hd]
    rfl
  rw [hset]
  obtain ⟨hi, hget⟩ := List.getElem?_eq_some_iff.mp hd
  have happart := List.pairwise_iff_getElem.mp h.apart
  -- nobody else is confused with the dialogue as it is now
  have hother : ∀ j (hj : j < dialogs.length), j ≠ i → (f d).Apart dialogs[j] := by
    intro j hj hne
    have hold : d.Apart dialogs[j] := by
      rw [← hget]
      rcases Nat.lt_or_gt_of_ne hne with hlt | hlt
      · exact (happart j i hj hi hlt).symm
      · exact happart i j hi hj hlt
    refine ⟨by rw [hpeer]; exact hold.1, fun heq => ?_⟩
    rw [hid] at heq ⊢
    rcases hfound with hsame | ⟨-, hfree⟩
    · rw [← hsame] at heq ⊢
      exact hold.2 heq
    · exact absurd heq.symm (hfree _ (List.getElem_mem hj))
  refine ⟨List.pairwise_iff_getElem.mpr fun j k hj hk hlt => ?_, fun c hc => ?_⟩
  · have hj' : j < dialogs.length := by rwa [List.length_set] at hj
    have hk' : k < dialogs.length := by rwa [List.length_set] at hk
    by_cases hji : j = i
    · subst hji
      rw [List.getElem_set_self, List.getElem_set_ne (by omega)]
      exact hother k hk' (by omega)
    · rw [List.getElem_set_ne (Ne.symm hji)]
      by_cases hki : k = i
      · subst hki
        rw [List.getElem_set_self]
        exact (hother j hj' hji).symm
      · rw [List.getElem_set_ne (Ne.symm hki)]
        exact happart j k hj' hk' hlt
  · rcases List.mem_or_eq_of_mem_set hc with hc | rfl
    · exact h.keyed c hc
    · intro e he hsource
      rcases hkeys e he with hold | hnew
      · have hsame := h.keyed d (List.mem_of_getElem? hd) e hold hsource
        rcases hfound with hd' | ⟨hempty, -⟩
        · rw [hid, ← hd', hsame]
        · exact absurd (hsame.symm.trans hempty) hsource
      · rw [hid, hnew]

/-- A dialogue with a free label and a server id of its own is added. -/
theorem Identified.append (h : Identified dialogs) (hlabel : labelTaken dialogs d.peer = false)
    (hid : d.peerServerId ≠ "" → ∀ c ∈ dialogs, c.peerServerId ≠ d.peerServerId)
    (hkeyed : d.Keyed) : Identified (dialogs ++ [d]) := by
  refine ⟨List.pairwise_append.mpr ⟨h.apart, List.pairwise_singleton _ _, fun c hc d' hd' => ?_⟩,
    fun c hc => ?_⟩
  · cases List.mem_singleton.mp hd'
    refine ⟨labelTaken_eq_false.mp hlabel c hc, fun heq => ?_⟩
    by_contra hne
    rw [heq] at hne
    exact hid hne c hc heq
  · rcases List.mem_append.mp hc with hc | hc
    · exact h.keyed c hc
    · cases List.mem_singleton.mp hc
      exact hkeyed

theorem Identified.opened (h : Identified dialogs) {entry : DialogKeyEntry}
    (hsource : entry.source = peerServerId)
    (hnone : findTarget dialogs peer peerServerId = none) :
    Identified (opened dialogs peer peerServerId entry) := by
  refine h.append newLabel_free (findTarget_none hnone) fun e he _ => ?_
  cases List.mem_singleton.mp he
  exact hsource.symm

theorem Identified.upsert (h : Identified dialogs) (peer peerServerId : String)
    (sessionKey : List UInt8) (startSeq : UInt64) (resetKeyring : Bool) :
    Identified (upsertDialogKeyringEntry dialogs peer peerServerId sessionKey startSeq
      resetKeyring) := by
  unfold upsertDialogKeyringEntry
  split
  · exact h
  · dsimp only
    split
    · rename_i i hfind
      obtain ⟨d, hd, hfound⟩ := findTarget_some hfind
      refine h.modify hd hfound (bind_peer ..) (bind_peerServerId (hfound.imp_right And.left)) ?_
      intro e he
      have he := mem_sorted.mp he
      have hkept : ∀ {e}, e ∈ (if resetKeyring then [] else d.keyring) → e ∈ d.keyring := by
        intro e he
        split at he
        · cases he
        · exact he
      cases hreplace : replaceKey ⟨startSeq, sessionKey, peerServerId⟩
          (if resetKeyring then [] else d.keyring) with
      | none =>
          rw [hreplace, Option.getD_none] at he
          rcases List.mem_append.mp he with he | he
          · exact .inl (hkept he)
          · cases List.mem_singleton.mp he
            exact .inr rfl
      | some keyring =>
          rw [hreplace, Option.getD_some] at he
          rcases mem_replaceKey hreplace he with rfl | he
          · exact .inr rfl
          · exact .inl (hkept he)
    · rename_i hnone
      exact h.opened rfl hnone

theorem Identified.merge (h : Identified dialogs) (peer peerServerId : String) (key : List UInt8)
    (startSeq : UInt64) :
    Identified (mergeKeyringEntry dialogs peer peerServerId key startSeq) := by
  unfold mergeKeyringEntry
  dsimp only
  split
  · rename_i i hfind
    obtain ⟨d, hd, hfound⟩ := findTarget_some hfind
    have hbound : (if d.peerServerId = "" then bind d peerServerId else d).peer = d.peer
        ∧ (if d.peerServerId = "" then bind d peerServerId else d).peerServerId = peerServerId
        ∧ (if d.peerServerId = "" then bind d peerServerId else d).keyring = d.keyring := by
      split
      · rename_i hempty
        refine ⟨bind_peer, bind_peerServerId (.inr hempty), ?_⟩
        unfold bind
        split <;> rfl
      · rename_i hne
        exact ⟨rfl, hfound.resolve_right fun hempty => hne hempty.1, rfl⟩
    refine h.modify hd hfound ?_ ?_ ?_
    · split
      · exact hbound.1
      · exact hbound.1
    · split
      · exact hbound.2.1
      · exact hbound.2.1
    · intro e he
      split at he
      · rw [hbound.2.2] at he
        exact .inl he
      · rcases List.mem_append.mp (mem_sorted.mp he) with he | he
        · exact .inl he
        · cases List.mem_singleton.mp he
          exact .inr rfl
  · rename_i hnone
    exact h.opened rfl hnone

theorem renamed_spec (roster : List (String × String)) (others : List Dialog) (d : Dialog) :
    (renamed roster others d).peerServerId = d.peerServerId
      ∧ (renamed roster others d).keyring = d.keyring
      ∧ ((renamed roster others d).peer = d.peer
        ∨ labelTaken others (renamed roster others d).peer = false) := by
  unfold renamed
  dsimp only
  split
  · exact ⟨rfl, rfl, .inl rfl⟩
  · split
    · exact ⟨rfl, rfl, .inl rfl⟩
    · split
      · exact ⟨rfl, rfl, .inl rfl⟩
      · rename_i hfree
        exact ⟨rfl, rfl, .inr (Bool.of_not_eq_true hfree)⟩

theorem Identified.renameFrom (roster : List (String × String)) (before rest : List Dialog)
    (h : Identified (before ++ rest)) : Identified (renameFrom roster before rest) := by
  induction rest generalizing before with
  | nil => simpa [Dialogs.renameFrom] using h
  | cons d rest ih =>
      obtain ⟨hid, hkeyring, hpeer⟩ := renamed_spec roster (before ++ rest) d
      refine ih _ ?_
      obtain ⟨hbefore, hrest, hacross⟩ := List.pairwise_append.mp h.apart
      obtain ⟨hhead, htail⟩ := List.pairwise_cons.mp hrest
      -- the others are the same as before
      have hothers : ∀ c ∈ before ++ rest, (renamed roster (before ++ rest) d).Apart c := by
        intro c hc
        have hold : d.Apart c := by
          rcases List.mem_append.mp hc with hc | hc
          · exact (hacross c hc d List.mem_cons_self).symm
          · exact hhead c hc
        refine ⟨?_, by rw [hid]; exact hold.2⟩
        rcases hpeer with hsame | hfree
        · rw [hsame]
          exact hold.1
        · exact (labelTaken_eq_false.mp hfree c hc).symm
      rw [List.append_assoc, List.singleton_append]
      refine ⟨List.pairwise_append.mpr ⟨hbefore, List.pairwise_cons.mpr ⟨fun c hc =>
        hothers c (List.mem_append_right _ hc), htail⟩, fun a ha b hb => ?_⟩, fun c hc => ?_⟩
      · rcases List.mem_cons.mp hb with rfl | hb
        · exact (hothers a (List.mem_append_left _ ha)).symm
        · exact hacross a ha b (List.mem_cons_of_mem _ hb)
      · rcases List.mem_append.mp hc with hc | hc
        · exact h.keyed c (List.mem_append_left _ hc)
        · rcases List.mem_cons.mp hc with rfl | hc
          · intro e he hsource
            rw [hkeyring] at he
            rw [hid]
            exact h.keyed d (List.mem_append_right _ List.mem_cons_self) e he hsource
          · exact h.keyed c (List.mem_append_right _ (List.mem_cons_of_mem _ hc))

theorem Identified.rosterNames (h : Identified dialogs) (roster : List (String × String)) :
    Identified (applyCorporateRosterNames dialogs roster) :=
  .renameFrom _ [] dialogs h

theorem Identified.corporateKeyring (h : Identified dialogs) (roster : List (String × String))
    (keyring : List CorporateKey) : Identified (applyCorporateKeyring dialogs roster keyring) := by
  unfold applyCorporateKeyring
  have hnames := h.rosterNames roster
  generalize applyCorporateRosterNames dialogs roster = dialogs at hnames
  induction keyring generalizing dialogs with
  | nil => exact hnames
  | cons e keyring ih =>
      refine ih _ ?_
      unfold putCorporateKey
      split
      · exact hnames
      · exact hnames.upsert ..

theorem Identified.remove (h : Identified dialogs) (peer : String) :
    Identified (removeDialog dialogs peer) :=
  ⟨h.apart.sublist List.filter_sublist, fun d hd => h.keyed d (List.mem_filter.mp hd).1⟩

/-- A login finds the dialogue with oneself by its label, or no dialogue has its server id. -/
def SelfKnown (dialogs : List Dialog) (serverId : String) : Prop :=
  labelTaken dialogs selfLabel = true ∨ ∀ d ∈ dialogs, d.peerServerId ≠ serverId

instance (dialogs : List Dialog) (serverId : String) : Decidable (SelfKnown dialogs serverId) :=
  inferInstanceAs (Decidable (_ ∨ _))

/-- A login keeps the dialogues apart exactly if it knows the one with oneself. -/
theorem Identified.login_iff (h : Identified dialogs) {serverId : String} {derived : List UInt8}
    (hs : serverId ≠ "") : Identified (login dialogs serverId derived)
      ↔ SelfKnown dialogs serverId := by
  unfold login SelfKnown
  by_cases htaken : labelTaken dialogs selfLabel = true
  · rw [if_pos (.inr htaken)]
    exact ⟨fun _ => .inl htaken, fun _ => h⟩
  · rw [if_neg (by simp [hs, htaken])]
    refine ⟨fun hnew => .inr fun d hd heq => hs ?_, fun hknown => ?_⟩
    · have hapart := (List.pairwise_append.mp hnew.apart).2.2 d hd _ List.mem_cons_self
      exact heq.symm.trans (hapart.2 heq)
    · refine h.append (Bool.of_not_eq_true htaken) (fun _ => hknown.resolve_left htaken)
        fun e he _ => ?_
      cases List.mem_singleton.mp he
      rfl

/-! ## Runs -/

/-- Every login knows the dialogue with oneself. -/
def LoginKnown (dialogs : List Dialog) : DialogsOp → Prop
  | .login serverId _ => SelfKnown dialogs serverId
  | _ => True

instance (dialogs : List Dialog) (op : DialogsOp) : Decidable (LoginKnown dialogs op) :=
  match op with
  | .login _ _ => inferInstanceAs (Decidable (SelfKnown _ _))
  | .upsert .. | .merge .. | .rosterNames _ | .corporateKeyring .. | .remove _ => .isTrue trivial

theorem Identified.step {op : DialogsOp} {dialogs' : List Dialog} (h : Identified dialogs)
    (hok : LoginKnown dialogs op) (hs : step dialogs op = some dialogs') : Identified dialogs' := by
  cases op with
  | upsert =>
      cases hs
      exact h.upsert ..
  | merge =>
      cases hs
      exact h.merge ..
  | rosterNames =>
      cases hs
      exact h.rosterNames _
  | corporateKeyring =>
      cases hs
      exact h.corporateKeyring _ _
  | remove =>
      cases hs
      exact h.remove _
  | login serverId derived =>
      cases hs
      by_cases hempty : serverId = ""
      · rw [login, if_pos (.inl hempty)]
        exact h
      · exact (h.login_iff hempty).mpr hok

/-- **Dialogues are not confused**: no two have one label, no two have one server id, and a key
obtained for a server id is in the dialogue of that id. -/
theorem identified_reachable (hr : Lts.Reach step LoginKnown [] dialogs) :
    dialogs.Pairwise (fun a b => a.peer ≠ b.peer)
      ∧ dialogs.Pairwise (fun a b => a.peerServerId ≠ "" → a.peerServerId ≠ b.peerServerId)
      ∧ ∀ d ∈ dialogs, ∀ e ∈ d.keyring, e.source ≠ "" → d.peerServerId = e.source := by
  have h : Identified dialogs :=
    hr.invariant ⟨.nil, fun _ hd => absurd hd List.not_mem_nil⟩ fun _ _ _ _ h hok hs => h.step hok hs
  exact ⟨h.apart.imp And.left, h.apart.imp fun hab hne heq => hne (hab.2 heq), h.keyed⟩

section Example

/-- The roster has one's own name, and one logs in again. -/
def renamedSelf : List DialogsOp :=
  [.login "me" [7], .rosterNames [("me", "Ivan")], .login "me" [7]]

theorem identity_lost :
    (Lts.exec step [] renamedSelf).map (·.map fun d => (d.peer, d.peerServerId))
      = some [("Ivan", "me"), (selfLabel, "me")] := by decide +kernel

/-- Two peers with one label, and one of them renamed by the roster. -/
def orderly : List DialogsOp :=
  [.login "me" [7], .upsert "Bob" "b1" (List.replicate 32 1) 1 true,
    .merge "Bob" "b2" (List.replicate 32 2) 1, .rosterNames [("b1", "Robert")], .login "me" [7]]

theorem identified_orderly :
    ((Lts.exec step [] orderly).getD []).map Dialog.peer = [selfLabel, "Robert", "Bob (b2)"]
      ∧ ((Lts.exec step [] orderly).getD []).Pairwise
        (fun a b => a.peerServerId ≠ "" → a.peerServerId ≠ b.peerServerId) := by
  have h : (Lts.execWhile step LoginKnown [] orderly).isSome = true := by decide +kernel
  exact ⟨by decide +kernel, (identified_reachable (Lts.reach_exec h)).2.1⟩

end Example

end Dialogs

end Paranoia
