import Paranoia.Client.DialogStore
import Paranoia.Lib.Tasks
import Paranoia.Proof.Dialogs

/-!
# Keys that stay

A profile has one list of dialogues as long as nobody works on an old one: a login takes over what
the list still is, only one queue has something to write, and an import finds no list but the one it
changes. Then the session, the queue and the file all hold every change there was
(`ProfileStore.Kept`), and no key is lost (`keys_kept`).

None of this is seen to. A key that comes while a login is under way is not in the list that the
login has read, and the session that it is in is replaced (`keys_lost`).
-/

namespace Paranoia

/-- A dialogue that reads back as it was written. -/
structure Dialog.Storable (d : Dialog) : Prop where
  peer : d.peer ≠ ""
  sorted : d.keyring.Pairwise fun a b => a.startSeq ≤ b.startSeq
  keys : ∀ e ∈ d.keyring, e.key.length = 32 ∧ e.startSeq ≠ 0 ∧ e.startSeq.toNat < 2 ^ 53

namespace Dialogs

variable {dialogs : List Dialog} {peer peerServerId : String} {numbers : JsonNumbers}

/-! ## Reading back what was written -/

instance : Std.Total fun a b : DialogKeyEntry => a.startSeq ≤ b.startSeq :=
  ⟨fun a b => UInt64.le_total a.startSeq b.startSeq⟩

instance : IsTrans DialogKeyEntry fun a b => a.startSeq ≤ b.startSeq :=
  ⟨fun _ _ _ hab hbc => UInt64.le_trans hab hbc⟩

theorem sorted_pairwise (keyring : List DialogKeyEntry) :
    (sorted keyring).Pairwise fun a b => a.startSeq ≤ b.startSeq :=
  List.pairwise_insertionSort _ _

theorem rereadKey_eq {e : DialogKeyEntry}
    (h : e.key.length = 32 ∧ e.startSeq ≠ 0 ∧ e.startSeq.toNat < 2 ^ 53) :
    rereadKey numbers e = some e := by
  rw [rereadKey, if_pos ⟨h.1, h.2.1⟩, numbers.exact _ h.2.2, Option.filter_some,
    if_pos (by simpa using h.2.1)]
  rfl

/-- Dialogues the entries of which read back as they were written do so too. -/
theorem reload_self (h : ∀ d ∈ dialogs, d.peer ≠ "" ∧
      (d.keyring.Pairwise fun a b => a.startSeq ≤ b.startSeq) ∧
      ∀ e ∈ d.keyring, rereadKey numbers e = some e) : reload numbers dialogs = dialogs := by
  have hpeers : dialogs.filter (·.peer ≠ "") = dialogs :=
    List.filter_eq_self.mpr fun d hd => decide_eq_true (h d hd).1
  rw [reload, hpeers]
  refine (List.map_congr_left fun d hd => ?_).trans (List.map_id _)
  have hkeys : d.keyring.filterMap (rereadKey numbers) = d.keyring :=
    (List.filterMap_congr (h d hd).2.2).trans List.filterMap_some
  have hsorted : sorted d.keyring = d.keyring := (h d hd).2.1.insertionSort_eq
  rw [hkeys, hsorted]
  rfl

/-- Dialogues that are in order read back as they were written. -/
theorem reload_eq (h : ∀ d ∈ dialogs, d.Storable) : reload numbers dialogs = dialogs :=
  reload_self fun d hd =>
    ⟨(h d hd).peer, (h d hd).sorted, fun e he => rereadKey_eq ((h d hd).keys e he)⟩

/-! ## Changes leave dialogues in order -/

@[simp]
theorem bind_keyring {d : Dialog} : (bind d peerServerId).keyring = d.keyring := by
  unfold bind
  split <;> rfl

theorem labelled_ne_empty (peer suffix : String) : labelled peer suffix ≠ "" := by
  intro h
  have := congrArg String.length h
  simp [labelled] at this

theorem nextLabel_ne_empty {k n : Nat} {label : String} (h : label ≠ "") :
    nextLabel dialogs peer k n label ≠ "" := by
  induction k generalizing n label with
  | zero => exact h
  | succ k ih =>
      rw [nextLabel]
      split
      · exact ih (labelled_ne_empty _ _)
      · exact h

theorem newLabel_ne_empty (h : peer ≠ "") : newLabel dialogs peer peerServerId ≠ "" := by
  unfold newLabel
  split
  · refine nextLabel_ne_empty ?_
    split
    · exact h
    · exact labelled_ne_empty _ _
  · exact h

theorem storable_opened (h : ∀ d ∈ dialogs, d.Storable) (hpeer : peer ≠ "") {e : DialogKeyEntry}
    (he : e.key.length = 32 ∧ e.startSeq ≠ 0 ∧ e.startSeq.toNat < 2 ^ 53) :
    ∀ d ∈ opened dialogs peer peerServerId e, d.Storable := by
  intro d hd
  rcases List.mem_append.mp hd with hd | hd
  · exact h d hd
  · cases List.mem_singleton.mp hd
    refine ⟨newLabel_ne_empty hpeer, List.pairwise_singleton _ _, fun e' he' => ?_⟩
    cases List.mem_singleton.mp he'
    exact he

theorem storable_upsert (h : ∀ d ∈ dialogs, d.Storable) {sessionKey : List UInt8}
    {startSeq : UInt64} {resetKeyring : Bool} (hexact : startSeq.toNat < 2 ^ 53) :
    ∀ d ∈ upsertDialogKeyringEntry dialogs peer peerServerId sessionKey startSeq resetKeyring,
      d.Storable := by
  unfold upsertDialogKeyringEntry
  split
  · exact h
  · rename_i hgood
    simp only [not_or, ne_eq, not_not] at hgood
    obtain ⟨hpeer, hlength, hseq⟩ := hgood
    dsimp only
    split
    · intro d hd
      rcases Tasks.mem_modify hd with hd | ⟨c, hc, rfl⟩
      · exact h d hd
      · have hold : ∀ e ∈ (if resetKeyring then [] else c.keyring), e ∈ c.keyring := by
          intro e he
          split at he
          · cases he
          · exact he
        refine ⟨by rw [bind_peer]; exact (h c hc).peer, sorted_pairwise _, fun e he => ?_⟩
        have he := mem_sorted.mp he
        have hnew : e = ⟨startSeq, sessionKey, peerServerId⟩
            ∨ e ∈ (if resetKeyring then [] else c.keyring) := by
          cases hreplace : replaceKey ⟨startSeq, sessionKey, peerServerId⟩
              (if resetKeyring then [] else c.keyring) with
          | none =>
              rw [hreplace, Option.getD_none] at he
              exact (List.mem_append.mp he).symm.imp_left List.mem_singleton.mp
          | some keyring =>
              rw [hreplace, Option.getD_some] at he
              exact mem_replaceKey hreplace he
        rcases hnew with rfl | he
        · exact ⟨hlength, hseq, hexact⟩
        · exact (h c hc).keys e (hold e he)
    · exact storable_opened h hpeer ⟨hlength, hseq, hexact⟩

theorem storable_importKey (h : ∀ d ∈ dialogs, d.Storable) {e : ImportedKey}
    (hexact : e.startSeq.toNat < 2 ^ 53) : ∀ d ∈ importKey dialogs e, d.Storable := by
  unfold importKey
  split
  · exact h
  · rename_i hgood
    simp only [not_or, ne_eq, not_not] at hgood
    obtain ⟨hpeer, hseq, hlength⟩ := hgood
    unfold mergeKeyringEntry
    dsimp only
    split
    · intro d hd
      rcases Tasks.mem_modify hd with hd | ⟨c, hc, rfl⟩
      · exact h d hd
      · have hbound : (if c.peerServerId = "" then bind c e.peerServerId else c).Storable := by
          split
          · exact ⟨by rw [bind_peer]; exact (h c hc).peer, by rw [bind_keyring]; exact (h c hc).sorted,
              by rw [bind_keyring]; exact (h c hc).keys⟩
          · exact h c hc
        split
        · exact hbound
        · refine ⟨hbound.peer, sorted_pairwise _, fun k hk => ?_⟩
          rcases List.mem_append.mp (mem_sorted.mp hk) with hk | hk
          · exact (h c hc).keys k hk
          · cases List.mem_singleton.mp hk
            exact ⟨hlength, hseq, hexact⟩
    · exact storable_opened h hpeer ⟨hlength, hseq, hexact⟩

theorem storable_importKeys {keys : List ImportedKey} (h : ∀ d ∈ dialogs, d.Storable)
    (hexact : ∀ e ∈ keys, e.startSeq.toNat < 2 ^ 53) :
    ∀ d ∈ importKeys dialogs keys, d.Storable := by
  induction keys generalizing dialogs with
  | nil => exact h
  | cons e keys ih =>
      exact ih (storable_importKey h (hexact e List.mem_cons_self))
        fun e' he' => hexact e' (List.mem_cons_of_mem _ he')

theorem storable_renamed (roster : List (String × String)) (others : List Dialog) {d : Dialog}
    (h : d.Storable) : (renamed roster others d).Storable := by
  unfold renamed
  dsimp only
  split
  · exact h
  · rename_i hname
    split
    · exact h
    · split
      · exact h
      · exact ⟨fun hempty => hname (.inr (.inl hempty)), h.sorted, h.keys⟩

theorem storable_renameFrom (roster : List (String × String)) (before rest : List Dialog)
    (h : ∀ d ∈ before ++ rest, d.Storable) : ∀ d ∈ renameFrom roster before rest, d.Storable := by
  induction rest generalizing before with
  | nil => simpa [renameFrom] using h
  | cons d rest ih =>
      refine ih _ fun c hc => ?_
      simp only [List.append_assoc, List.mem_append, List.mem_singleton] at hc
      rcases hc with hc | rfl | hc
      · exact h c (List.mem_append_left _ hc)
      · exact storable_renamed _ _ (h d (List.mem_append_right _ List.mem_cons_self))
      · exact h c (List.mem_append_right _ (List.mem_cons_of_mem _ hc))

theorem storable_corporateKeyring {roster : List (String × String)} {keyring : List CorporateKey}
    (h : ∀ d ∈ dialogs, d.Storable) (hexact : ∀ e ∈ keyring, e.startSeq.toNat < 2 ^ 53) :
    ∀ d ∈ applyCorporateKeyring dialogs roster keyring, d.Storable := by
  unfold applyCorporateKeyring
  have hnames := storable_renameFrom
    ((roster.map fun r => (r.1, trimmed r.2)).filter fun r => r.1 ≠ "" ∧ r.2 ≠ "") [] dialogs h
  change ∀ d ∈ applyCorporateRosterNames dialogs roster, d.Storable at hnames
  clear h
  generalize applyCorporateRosterNames dialogs roster = dialogs at hnames
  induction keyring generalizing dialogs with
  | nil => exact hnames
  | cons e keyring ih =>
      have hput : ∀ d ∈ putCorporateKey roster dialogs e, d.Storable := by
        unfold putCorporateKey
        split
        · exact hnames
        · exact storable_upsert hnames (hexact e List.mem_cons_self)
      exact ih (fun e' he' => hexact e' (List.mem_cons_of_mem _ he')) _ hput

theorem storable_localName (h : ∀ d ∈ dialogs, d.Storable) (name : String) :
    ∀ d ∈ setLocalName dialogs peer name, d.Storable := by
  unfold setLocalName
  split
  · intro d hd
    rcases Tasks.mem_modify hd with hd | ⟨c, hc, rfl⟩
    · exact h d hd
    · exact ⟨(h c hc).peer, (h c hc).sorted, (h c hc).keys⟩
  · exact h

theorem storable_login (h : ∀ d ∈ dialogs, d.Storable) (serverId : String)
    (derived : Vector UInt8 32) : ∀ d ∈ login dialogs serverId derived.toList, d.Storable := by
  unfold login
  split
  · exact h
  · intro d hd
    rcases List.mem_append.mp hd with hd | hd
    · exact h d hd
    · cases List.mem_singleton.mp hd
      have hlabel : selfLabel ≠ "" := by decide
      have hseq : (1 : UInt64) ≠ 0 ∧ (1 : UInt64).toNat < 2 ^ 53 := by decide
      refine ⟨hlabel, List.pairwise_singleton _ _, fun e he => ?_⟩
      cases List.mem_singleton.mp he
      exact ⟨by simp, hseq⟩

end Dialogs

/-- The first positions that a change brings are exact as doubles. -/
def DialogEdit.Exact : DialogEdit → Prop
  | .upsert _ _ _ startSeq _ => startSeq.toNat < 2 ^ 53
  | .corporateKeyring _ keyring => ∀ e ∈ keyring, e.startSeq.toNat < 2 ^ 53
  | _ => True

instance (e : DialogEdit) : Decidable e.Exact :=
  match e with
  | .upsert .. => inferInstanceAs (Decidable (_ < _))
  | .corporateKeyring _ keyring => inferInstanceAs (Decidable (∀ e ∈ keyring, _))
  | .rosterNames _ | .remove _ | .localName .. => .isTrue trivial

theorem DialogEdit.storable {dialogs : List Dialog} {e : DialogEdit} (he : e.Exact)
    (h : ∀ d ∈ dialogs, d.Storable) : ∀ d ∈ e.apply dialogs, d.Storable := by
  cases e with
  | upsert => exact Dialogs.storable_upsert h he
  | rosterNames => exact Dialogs.storable_renameFrom _ [] dialogs h
  | corporateKeyring => exact Dialogs.storable_corporateKeyring h he
  | remove => exact fun d hd => h d (List.mem_filter.mp hd).1
  | localName => exact Dialogs.storable_localName h _

namespace ProfileStore

/-- Everywhere the list is the one with all changes: in the session, in the one queue that has
something to write, and in the file when none has. -/
structure Kept (st : ProfileStore) : Prop where
  live : ∀ i, st.live = some i → ∃ s, st.sessions[i]? = some s ∧ s.dialogs = st.intended
  newest : ∀ s ∈ st.sessions, ∀ l, s.newest = some l → l = st.intended
  one : ∀ (i j : Nat) (s t : SessionObject), st.sessions[i]? = some s → st.sessions[j]? = some t →
    s.Busy → t.Busy → i = j
  written : (∀ s ∈ st.sessions, ¬ s.Busy) → st.disk = st.intended
  running : ∀ s ∈ st.sessions, s.Busy → s.running = true
  storable : ∀ d ∈ st.intended, d.Storable

variable {st st' : ProfileStore} {numbers : JsonNumbers} {i : Nat} {s t : SessionObject}

theorem newest_of_busy (h : s.Busy) : ∃ l, s.newest = some l := by
  unfold SessionObject.newest
  cases hp : s.pending with
  | some l => exact ⟨l, rfl⟩
  | none =>
      obtain ⟨l, hl⟩ := Option.ne_none_iff_exists'.mp (h.resolve_left fun hne => hne hp)
      exact ⟨l, by rw [hl]; rfl⟩

theorem busy_of_newest {l : List Dialog} (h : s.newest = some l) : s.Busy := by
  by_contra hidle
  unfold SessionObject.Busy at hidle
  push Not at hidle
  rw [SessionObject.newest, hidle.1, hidle.2] at h
  cases h

/-- The list as it is now is the one with all changes. -/
theorem Kept.current_eq (h : st.Kept) : st.current = st.intended := by
  unfold current
  cases hlive : st.liveDialogs with
  | some l =>
      obtain ⟨s, hs, rfl⟩ := Option.map_eq_some_iff.mp hlive
      obtain ⟨i, hi, hget⟩ := Option.bind_eq_some_iff.mp hs
      obtain ⟨s', hs', hdialogs⟩ := h.live i hi
      rw [hget] at hs'
      cases hs'
      exact hdialogs
  | none =>
      cases hfind : st.sessions.findSome? SessionObject.newest with
      | some l =>
          obtain ⟨s, hs, hl⟩ := List.exists_of_findSome?_eq_some hfind
          exact h.newest s hs l hl
      | none =>
          refine h.written fun s hs hbusy => ?_
          obtain ⟨l, hl⟩ := newest_of_busy hbusy
          rw [List.findSome?_eq_none_iff.mp hfind s hs] at hl
          cases hl

/-! ## Workers -/

/-- A worker does something for one queue. -/
theorem Kept.work (h : st.Kept) (hs : st.sessions[i]? = some s) {disk : List Dialog}
    (hdialogs : t.dialogs = s.dialogs) (hbusy : t.Busy → s.Busy)
    (hnewest : ∀ l, t.newest = some l → l = st.intended)
    (hrunning : t.Busy → t.running = true)
    (hdisk : (∀ c ∈ st.sessions.set i t, ¬ c.Busy) → disk = st.intended) :
    { st with sessions := st.sessions.set i t, disk }.Kept where
  live j hj := by
    obtain ⟨c, hc, hcd⟩ := h.live j hj
    by_cases hij : j = i
    · subst hij
      rw [hs] at hc
      cases hc
      exact ⟨t, Tasks.get_set_self hs t, hdialogs.trans hcd⟩
    · exact ⟨c, by rw [← hc]; exact List.getElem?_set_ne (Ne.symm hij), hcd⟩
  newest c hc l hl := by
    rcases List.mem_or_eq_of_mem_set hc with hc | rfl
    · exact h.newest c hc l hl
    · exact hnewest l hl
  one j k c d hc hd hcb hdb := by
    rcases Tasks.get_set hs hc with ⟨rfl, rfl⟩ | ⟨-, hc'⟩ <;>
      rcases Tasks.get_set hs hd with ⟨rfl, rfl⟩ | ⟨-, hd'⟩
    · rfl
    · exact h.one _ _ _ _ hs hd' (hbusy hcb) hdb
    · exact h.one _ _ _ _ hc' hs hcb (hbusy hdb)
    · exact h.one _ _ _ _ hc' hd' hcb hdb
  written := hdisk
  running c hc hcb := by
    rcases List.mem_or_eq_of_mem_set hc with hc | rfl
    · exact h.running c hc hcb
    · exact hrunning hcb
  storable := h.storable

/-- Somebody saves the list with all changes while the other queues are idle. -/
theorem Kept.enqueue (h : st.Kept) (hs : st.sessions[i]? = some s) (hidle : st.OthersIdle i)
    {intended : List Dialog} (hintended : ∀ d ∈ intended, d.Storable)
    (hlive : ∀ k, st.live = some k → k ≠ i → intended = st.intended)
    (ht : t.dialogs = intended) (hpending : t.pending = some intended) (hrunning : t.running = true) :
    { st with sessions := st.sessions.set i t, intended }.Kept where
  live j hj := by
    by_cases hij : j = i
    · subst hij
      exact ⟨t, Tasks.get_set_self hs t, ht⟩
    · obtain ⟨c, hc, hcd⟩ := h.live j hj
      exact ⟨c, by rw [← hc]; exact List.getElem?_set_ne (Ne.symm hij), by rw [hcd, hlive j hj hij]⟩
  newest c hc l hl := by
    obtain ⟨j, hj⟩ := List.mem_iff_getElem?.mp hc
    rcases Tasks.get_set hs hj with ⟨-, rfl⟩ | ⟨hne, hj⟩
    · rw [SessionObject.newest, hpending] at hl
      exact (Option.some.inj hl).symm
    · exact absurd (busy_of_newest hl) (hidle j (List.getElem?_eq_some_iff.mp hj).1 hne c hj)
  one j k c d hc hd hcb hdb := by
    rcases Tasks.get_set hs hc with ⟨rfl, -⟩ | ⟨hne, hc⟩
    · rcases Tasks.get_set hs hd with ⟨rfl, -⟩ | ⟨hne, hd⟩
      · rfl
      · exact absurd hdb (hidle k (List.getElem?_eq_some_iff.mp hd).1 hne d hd)
    · exact absurd hcb (hidle j (List.getElem?_eq_some_iff.mp hc).1 hne c hc)
  written hall := by
    refine absurd (.inl ?_) (hall t (Tasks.mem_set_self hs t))
    rw [hpending]
    exact nofun
  running c hc hcb := by
    rcases List.mem_or_eq_of_mem_set hc with hc | rfl
    · exact h.running c hc hcb
    · exact hrunning
  storable := hintended

/-- A login adds a session that has the list with all changes. -/
theorem Kept.append (h : st.Kept) {intended : List Dialog} (hintended : ∀ d ∈ intended, d.Storable)
    (ht : t.dialogs = intended) (hwrite : ¬ t.Busy ∧ intended = st.intended
      ∨ st.OthersIdle st.sessions.length ∧ t.pending = some intended ∧ t.running = true)
    (logins : List (Option (List Dialog))) :
    { st with sessions := st.sessions ++ [t], live := some st.sessions.length, logins, intended }.Kept
    where
  live j hj := by
    cases hj
    exact ⟨t, List.getElem?_concat_length, ht⟩
  newest c hc l hl := by
    rcases List.mem_append.mp hc with hold | hc
    · rcases hwrite with ⟨-, rfl⟩ | ⟨hidle, -⟩
      · exact h.newest c hold l hl
      · obtain ⟨j, hj⟩ := List.mem_iff_getElem?.mp hold
        have hlt := (List.getElem?_eq_some_iff.mp hj).1
        exact absurd (busy_of_newest hl) (hidle j hlt (Nat.ne_of_lt hlt) c hj)
    · cases List.mem_singleton.mp hc
      rcases hwrite with ⟨hn, -⟩ | ⟨-, hpending, -⟩
      · exact absurd (busy_of_newest hl) hn
      · rw [SessionObject.newest, hpending] at hl
        exact (Option.some.inj hl).symm
  one j k c d hc hd hcb hdb := by
    have hold {j : Nat} {c : SessionObject} (hc : st.sessions[j]? = some c) (hb : c.Busy)
        (hidle : st.OthersIdle st.sessions.length) : False := by
      have hlt := (List.getElem?_eq_some_iff.mp hc).1
      exact hidle j hlt (Nat.ne_of_lt hlt) c hc hb
    rcases Tasks.get_append hc with hc' | ⟨rfl, rfl⟩ <;>
      rcases Tasks.get_append hd with hd' | ⟨rfl, rfl⟩
    · exact h.one _ _ _ _ hc' hd' hcb hdb
    · exact (hwrite.elim (fun hn => hn.1 hdb) fun hw => hold hc' hcb hw.1).elim
    · exact (hwrite.elim (fun hn => hn.1 hcb) fun hw => hold hd' hdb hw.1).elim
    · rfl
  written hall := by
    rcases hwrite with ⟨-, rfl⟩ | ⟨-, hpending, -⟩
    · exact h.written fun c hc => hall c (List.mem_append_left _ hc)
    · refine absurd (.inl ?_) (hall t (List.mem_append_right _ List.mem_cons_self))
      rw [hpending]
      exact nofun
  running c hc hcb := by
    rcases List.mem_append.mp hc with hc | hc
    · exact h.running c hc hcb
    · cases List.mem_singleton.mp hc
      exact hwrite.elim (fun hn => absurd hcb hn.1) fun hw => hw.2.2
  storable := hintended

/-! ## Steps -/

/-- Whoever works on the list has it as it is now, and no other queue has anything to write. -/
def Orderly (st : ProfileStore) : StoreLabel → Prop
  | .edit e => e.Exact ∧ ∀ i ∈ st.live, st.OthersIdle i
  | .save i => (∀ s ∈ st.sessions[i]?, s.dialogs = st.current) ∧ st.OthersIdle i
  | .finishLogin i serverId derived => ∀ l ∈ st.logins[i]?.join, l = st.current
      ∧ (Dialogs.login l serverId derived.toList = l ∨ st.OthersIdle st.sessions.length)
  | _ => True

instance (st : ProfileStore) (l : StoreLabel) : Decidable (st.Orderly l) :=
  match l with
  | .edit _ => inferInstanceAs (Decidable (_ ∧ _))
  | .save _ => inferInstanceAs (Decidable (_ ∧ _))
  | .finishLogin i _ _ => inferInstanceAs (Decidable (∀ l ∈ st.logins[i]?.join, _ ∧ _))
  | .take _ | .write _ | .rest _ | .startLogin | .readDialogs _ | .loginFails _
  | .removeSession => .isTrue trivial

theorem update_some {f : SessionObject → Option SessionObject} (h : st.update i f = some st') :
    ∃ s t, st.sessions[i]? = some s ∧ f s = some t
      ∧ st' = { st with sessions := st.sessions.set i t } := by
  obtain ⟨t, ht, rfl⟩ := Option.map_eq_some_iff.mp h
  obtain ⟨s, hs, hf⟩ := Option.bind_eq_some_iff.mp ht
  exact ⟨s, t, hs, hf, rfl⟩

theorem Kept.edit {e : DialogEdit} (h : st.Kept) (hok : st.Orderly (.edit e))
    (hs : st.edit e = some st') : st'.Kept := by
  obtain ⟨i, hlive, hs⟩ := Option.bind_eq_some_iff.mp hs
  obtain ⟨st₁, hupd, rfl⟩ := Option.map_eq_some_iff.mp hs
  obtain ⟨s, t, hget, ht, rfl⟩ := update_some hupd
  cases ht
  obtain ⟨s', hget', hdialogs⟩ := h.live i hlive
  rw [hget] at hget'
  cases hget'
  by_cases hsame : e.apply s.dialogs = s.dialogs
  · -- nothing has changed
    have hchange : s.change (e.apply s.dialogs) = s := if_pos hsame
    have hset : st.sessions.set i s = st.sessions := by
      obtain ⟨hi, he⟩ := List.getElem?_eq_some_iff.mp hget
      rw [← he, List.set_getElem_self]
    rw [hchange, ← hdialogs, hsame, hdialogs, hset]
    exact h
  · have hchange : s.change (e.apply s.dialogs)
        = { s with dialogs := e.apply s.dialogs }.saveDialogs := if_neg hsame
    rw [hchange, hdialogs]
    refine h.enqueue hget (hok.2 i hlive) (DialogEdit.storable hok.1 h.storable) (fun k hk hne => ?_)
      rfl rfl rfl
    exact absurd (Option.some.inj (hk.symm.trans hlive)) hne

theorem Kept.finishLogin {serverId : String} {derived : Vector UInt8 32} (h : st.Kept)
    (hok : st.Orderly (.finishLogin i serverId derived))
    (hs : st.finishLogin i serverId derived.toList = some st') : st'.Kept := by
  obtain ⟨l, hl, rfl⟩ := Option.map_eq_some_iff.mp hs
  obtain ⟨hcurrent, hidle⟩ := hok l hl
  rw [h.current_eq] at hcurrent
  subst hcurrent
  have hstorable := Dialogs.storable_login h.storable serverId derived
  by_cases hsame : Dialogs.login st.intended serverId derived.toList = st.intended
  · rw [hsame]
    have hchange : (SessionObject.ofList st.intended).change st.intended
        = SessionObject.ofList st.intended := if_pos rfl
    rw [hchange]
    exact h.append h.storable rfl (.inl ⟨by simp [SessionObject.Busy, SessionObject.ofList], rfl⟩) _
  · have hchange : (SessionObject.ofList st.intended).change
        (Dialogs.login st.intended serverId derived.toList)
        = { SessionObject.ofList st.intended with
            dialogs := Dialogs.login st.intended serverId derived.toList }.saveDialogs := if_neg hsame
    rw [hchange]
    exact h.append hstorable rfl (.inr ⟨hidle.resolve_left hsame, rfl, rfl⟩) _

theorem Kept.take (h : st.Kept) (hget : st.sessions[i]? = some s)
    (hpending : s.pending ≠ none) (hrunning : s.running = true) :
    { st with sessions := st.sessions.set i { s with pending := none, writing := s.pending } }.Kept := by
  have hnewest : s.newest = s.pending := by
    obtain ⟨l, hl⟩ := Option.ne_none_iff_exists'.mp hpending
    rw [SessionObject.newest, hl]
    rfl
  refine h.work hget rfl (fun _ => .inl hpending) (fun l hl => ?_) (fun _ => hrunning) fun hall => ?_
  · exact h.newest s (List.mem_of_getElem? hget) l (hnewest.trans hl)
  · exact absurd (.inr hpending) (hall _ (Tasks.mem_set_self hget _))

theorem Kept.write {l : List Dialog} (h : st.Kept) (hget : st.sessions[i]? = some s)
    (hwriting : s.writing = some l) :
    { st with disk := l, sessions := st.sessions.set i { s with writing := none } }.Kept := by
  have hmem := List.mem_of_getElem? hget
  have hbusy : s.Busy := .inr (by rw [hwriting]; exact nofun)
  refine h.work hget rfl (fun _ => hbusy) (fun l' hl' => ?_) (fun _ => h.running s hmem hbusy)
    fun hall => ?_
  · refine h.newest s hmem l' ?_
    unfold SessionObject.newest at hl' ⊢
    cases hp : s.pending with
    | some p => rw [hp] at hl'; exact hl'
    | none => rw [hp] at hl'; cases hl'
  · -- with nothing left to write this was the newest
    have hidle := hall _ (Tasks.mem_set_self hget _)
    refine h.newest s hmem l ?_
    have hpending : s.pending = none := by
      by_contra hne
      exact hidle (.inl hne)
    rw [SessionObject.newest, hpending]
    exact hwriting

theorem Kept.rest (h : st.Kept) (hget : st.sessions[i]? = some s) (hidle : ¬ s.Busy) :
    { st with sessions := st.sessions.set i { s with running := false } }.Kept := by
  refine h.work hget rfl id (fun l hl => absurd (busy_of_newest hl) hidle)
    (fun hb => absurd hb hidle) fun hall => h.written fun c hc => ?_
  rcases Tasks.eq_or_mem_set hget hc with rfl | hc
  · exact hidle
  · exact hall c hc

theorem Kept.step {l : StoreLabel} (h : st.Kept) (hok : st.Orderly l)
    (hs : st.step numbers l = some st') : st'.Kept := by
  cases l with
  | edit e => exact h.edit hok hs
  | save i =>
      obtain ⟨s, t, hget, ht, rfl⟩ := update_some hs
      cases ht
      have hdialogs : s.dialogs = st.intended := (hok.1 s hget).trans h.current_eq
      exact h.enqueue hget hok.2 h.storable (fun _ _ _ => rfl) hdialogs (congrArg some hdialogs) rfl
  | take i =>
      obtain ⟨s, t, hget, ht, rfl⟩ := update_some hs
      obtain ⟨⟨hrunning, -, hpending⟩, ht⟩ := Option.ite_none_right_eq_some.mp ht
      cases ht
      exact h.take hget hpending hrunning
  | write i =>
      obtain ⟨s, hget, hs⟩ := Option.bind_eq_some_iff.mp hs
      obtain ⟨l, hl, rfl⟩ := Option.map_eq_some_iff.mp hs
      exact h.write hget hl
  | rest i =>
      obtain ⟨s, t, hget, ht, rfl⟩ := update_some hs
      obtain ⟨⟨-, hidle⟩, ht⟩ := Option.ite_none_right_eq_some.mp ht
      cases ht
      exact h.rest hget hidle
  | startLogin | loginFails i =>
      cases hs
      exact { h with }
  | readDialogs i =>
      obtain ⟨-, hs⟩ := Option.ite_none_right_eq_some.mp hs
      cases hs
      exact { h with }
  | finishLogin i serverId derived => exact h.finishLogin hok hs
  | removeSession =>
      cases hs
      exact { h with live := nofun }

/-- Workers change no list and find nothing more to write. -/
theorem worker_step {l : StoreLabel} (hl : l.onWorker = true)
    (hs : st.step numbers l = some st') : st'.live = st.live ∧ st'.intended = st.intended
      ∧ ((∀ s ∈ st.sessions, ¬ s.Busy) → ∀ s ∈ st'.sessions, ¬ s.Busy) := by
  cases l with
  | take i =>
      obtain ⟨s, t, hget, ht, rfl⟩ := update_some hs
      obtain ⟨⟨-, -, hpending⟩, -⟩ := Option.ite_none_right_eq_some.mp ht
      exact ⟨rfl, rfl, fun hall => absurd (.inl hpending) (hall s (List.mem_of_getElem? hget))⟩
  | write i =>
      obtain ⟨s, hget, hs⟩ := Option.bind_eq_some_iff.mp hs
      obtain ⟨l, hl, rfl⟩ := Option.map_eq_some_iff.mp hs
      refine ⟨rfl, rfl, fun hall => absurd (.inr ?_) (hall s (List.mem_of_getElem? hget))⟩
      rw [hl]
      exact nofun
  | rest i =>
      obtain ⟨s, t, hget, ht, rfl⟩ := update_some hs
      obtain ⟨⟨-, hidle⟩, ht⟩ := Option.ite_none_right_eq_some.mp ht
      cases ht
      refine ⟨rfl, rfl, fun hall c hc => ?_⟩
      rcases List.mem_or_eq_of_mem_set hc with hc | rfl
      · exact hall c hc
      · exact hidle
  | readDialogs i =>
      obtain ⟨-, hs⟩ := Option.ite_none_right_eq_some.mp hs
      cases hs
      exact ⟨rfl, rfl, id⟩
  | edit | save | startLogin | loginFails | finishLogin | removeSession => cases hl

/-- An import changes the list, the file and, where there is one, the session at once. -/
theorem Kept.importWrite {imp : ImportUnderWay} (h : st.Kept)
    (htarget : imp.target = Dialogs.importKeys st.intended imp.keys)
    (hexact : ∀ e ∈ imp.keys, e.startSeq.toNat < 2 ^ 53) (hidle : ∀ s ∈ st.sessions, ¬ s.Busy)
    (hcurrent : st.live ≠ none → imp.isCurrentClient = true) :
    (StoreWorld.importWrite st imp).Kept := by
  have hstill : ∀ s ∈ (StoreWorld.importWrite st imp).sessions, ¬ s.Busy := by
    intro s hs
    unfold StoreWorld.importWrite at hs
    dsimp only at hs
    split at hs
    · rcases Tasks.mem_modify hs with hs | ⟨c, hc, rfl⟩
      · exact hidle s hs
      · exact hidle c hc
    · exact hidle s hs
  refine ⟨fun i hi => ?_, fun s hs l hl => absurd (busy_of_newest hl) (hstill s hs),
    fun i j s t hs _ hb => absurd hb (hstill s (List.mem_of_getElem? hs)), fun _ => htarget,
    fun s hs hb => absurd hb (hstill s hs), Dialogs.storable_importKeys h.storable hexact⟩
  have hi : st.live = some i := hi
  obtain ⟨s, hs, -⟩ := h.live i hi
  refine ⟨{ s with dialogs := imp.target }, ?_, htarget⟩
  have hcur := hcurrent (by rw [hi]; exact nofun)
  unfold StoreWorld.importWrite
  dsimp only
  rw [hi, hcur]
  dsimp only
  rw [List.getElem?_modify_eq, hs]
  rfl

end ProfileStore

namespace StoreWorld

variable {numbers : JsonNumbers} {w w' w₀ : StoreWorld}

/-- What each profile has to see to; and an import is of a profile whose queues are idle, and which
has no session or the active one. -/
def Orderly (w : StoreWorld) : StoreEvent → Prop
  | .store profileId l => (w.profiles profileId).Orderly l
  | .importRead profileId keys => (∀ e ∈ keys, e.startSeq.toNat < 2 ^ 53)
      ∧ (∀ s ∈ (w.profiles profileId).sessions, ¬ s.Busy)
      ∧ (w.active = some profileId ∨ (w.profiles profileId).live = none)
  | _ => True

instance (w : StoreWorld) (e : StoreEvent) : Decidable (w.Orderly e) :=
  match e with
  | .store profileId l => inferInstanceAs (Decidable ((w.profiles profileId).Orderly l))
  | .importRead _ _ => inferInstanceAs (Decidable (_ ∧ _ ∧ _))
  | .setActiveSession _ | .importWrite => .isTrue trivial

/-- An import under way has the list with all changes and finds it as it was. -/
def Prepared (st : ProfileStore) (imp : ImportUnderWay) : Prop :=
  imp.target = Dialogs.importKeys st.intended imp.keys
    ∧ (∀ e ∈ imp.keys, e.startSeq.toNat < 2 ^ 53)
    ∧ (∀ s ∈ st.sessions, ¬ s.Busy) ∧ (st.live ≠ none → imp.isCurrentClient = true)

structure Kept (w : StoreWorld) : Prop where
  profiles : ∀ p, (w.profiles p).Kept
  active : ∀ p, w.active = some p → (w.profiles p).live ≠ none
  importing : ∀ imp, w.importing = some imp → Prepared (w.profiles imp.profileId) imp

theorem live_step {st st' : ProfileStore} {l : StoreLabel} (hs : st.step numbers l = some st')
    (hl : ¬ ∃ i serverId derived, l = .finishLogin i serverId derived) (hr : l ≠ .removeSession) :
    st'.live = st.live := by
  cases l with
  | edit e =>
      obtain ⟨i, -, hs⟩ := Option.bind_eq_some_iff.mp hs
      obtain ⟨st₁, hupd, rfl⟩ := Option.map_eq_some_iff.mp hs
      obtain ⟨s, t, -, -, rfl⟩ := ProfileStore.update_some hupd
      rfl
  | save | take | rest =>
      obtain ⟨s, t, -, -, rfl⟩ := ProfileStore.update_some hs
      rfl
  | write i =>
      obtain ⟨s, -, hs⟩ := Option.bind_eq_some_iff.mp hs
      obtain ⟨l, -, rfl⟩ := Option.map_eq_some_iff.mp hs
      rfl
  | startLogin | loginFails =>
      cases hs
      rfl
  | readDialogs =>
      obtain ⟨-, hs⟩ := Option.ite_none_right_eq_some.mp hs
      cases hs
      rfl
  | finishLogin i serverId derived => exact absurd ⟨i, serverId, derived, rfl⟩ hl
  | removeSession => exact absurd rfl hr

theorem Kept.store {profileId : String} {l : StoreLabel} (h : w.Kept)
    (hok : (w.profiles profileId).Orderly l) (hs : w.store numbers profileId l = some w') :
    w'.Kept := by
  obtain ⟨⟨hgui, -⟩, hs⟩ := Option.ite_none_right_eq_some.mp hs
  obtain ⟨st, hst, rfl⟩ := Option.map_eq_some_iff.mp hs
  refine ⟨fun p => ?_, fun p hp => ?_, fun imp himp => ?_⟩
  · by_cases hpp : p = profileId
    · subst hpp
      dsimp only
      rw [Function.update_self]
      exact (h.profiles p).step hok hst
    · dsimp only
      rw [Function.update_of_ne hpp]
      exact h.profiles p
  · dsimp only at hp ⊢
    have hactive : w.active = some p := (Option.ite_none_left_eq_some.mp hp).2
    by_cases hpp : p = profileId
    · subst hpp
      rw [Function.update_self]
      rw [live_step hst ?_ ?_]
      · exact h.active p hactive
      · rintro ⟨i, serverId, derived, rfl⟩
        simp [hactive] at hp
      · rintro rfl
        simp [hactive] at hp
    · rw [Function.update_of_ne hpp]
      exact h.active p hactive
  · have himp : w.importing = some imp := himp
    have hworker : l.onWorker = true := hgui.resolve_left (by rw [himp]; exact nofun)
    obtain ⟨htarget, hexact, hidle, hcurrent⟩ := h.importing imp himp
    dsimp only
    by_cases hpp : imp.profileId = profileId
    · rw [hpp] at htarget hidle hcurrent ⊢
      rw [Function.update_self]
      obtain ⟨hlive, hintended, hstill⟩ := ProfileStore.worker_step hworker hst
      exact ⟨by rw [hintended]; exact htarget, hexact, hstill hidle, by rw [hlive]; exact hcurrent⟩
    · rw [Function.update_of_ne hpp]
      exact ⟨htarget, hexact, hidle, hcurrent⟩

/-- The list that an import reads is the one with all changes. -/
theorem Kept.prepared {profileId : String} {keys : List Dialogs.ImportedKey} (h : w.Kept)
    (hok : w.Orderly (.importRead profileId keys)) :
    Prepared (w.profiles profileId) (w.importRead numbers profileId keys) := by
  obtain ⟨hexact, hidle, hwhere⟩ := hok
  have hst := h.profiles profileId
  refine ⟨?_, hexact, hidle, fun hlive => decide_eq_true (hwhere.resolve_right hlive)⟩
  unfold importRead
  dsimp only
  by_cases hactive : w.active = some profileId
  · rw [if_pos hactive]
    obtain ⟨i, hi⟩ := Option.ne_none_iff_exists'.mp (h.active profileId hactive)
    obtain ⟨s, hs, hdialogs⟩ := hst.live i hi
    rw [ProfileStore.liveDialogs, hi, Option.bind_some, hs, Option.map_some, Option.getD_some,
      hdialogs]
  · rw [if_neg hactive, hst.written hidle, Dialogs.reload_eq hst.storable]

theorem Kept.step {e : StoreEvent} (h : w.Kept) (hok : w.Orderly e)
    (hs : w.step numbers e = some w') : w'.Kept := by
  cases e with
  | store profileId l => exact h.store hok hs
  | setActiveSession profileId =>
      obtain ⟨⟨-, hlive⟩, hs⟩ := Option.ite_none_right_eq_some.mp hs
      cases hs
      exact { h with active := fun p hp => hlive p hp }
  | importRead profileId keys =>
      obtain ⟨-, hs⟩ := Option.ite_none_right_eq_some.mp hs
      cases hs
      refine { h with importing := fun imp himp => ?_ }
      cases himp
      exact h.prepared hok
  | importWrite =>
      obtain ⟨imp, himp, rfl⟩ := Option.map_eq_some_iff.mp hs
      obtain ⟨htarget, hexact, hidle, hcurrent⟩ := h.importing imp himp
      refine ⟨fun p => ?_, fun p hp => ?_, nofun⟩
      · by_cases hpp : p = imp.profileId
        · subst hpp
          dsimp only
          rw [Function.update_self]
          exact (h.profiles _).importWrite htarget hexact hidle hcurrent
        · dsimp only
          rw [Function.update_of_ne hpp]
          exact h.profiles p
      · by_cases hpp : p = imp.profileId
        · subst hpp
          dsimp only
          rw [Function.update_self]
          exact h.active _ hp
        · dsimp only
          rw [Function.update_of_ne hpp]
          exact h.active p hp

/-! ## Runs -/

/-- Every key of a dialogue of the one is with that dialogue in the other. -/
def KeysIn (l l' : List Dialog) : Prop :=
  ∀ d ∈ l, ∃ d' ∈ l', d'.peer = d.peer ∧ ∀ e ∈ d.keyring, e ∈ d'.keyring

instance (l l' : List Dialog) : Decidable (KeysIn l l') :=
  inferInstanceAs (Decidable (∀ d ∈ l, ∃ d' ∈ l', d'.peer = d.peer ∧ ∀ e ∈ d.keyring, e ∈ d'.keyring))

theorem KeysIn.refl (l : List Dialog) : KeysIn l l := fun d hd => ⟨d, hd, rfl, fun _ he => he⟩

/-- Nobody is logged in yet. -/
def start (disk : String → List Dialog) : StoreWorld :=
  ⟨fun p => ⟨disk p, [], none, [], disk p⟩, none, none⟩

theorem kept_start {disk : String → List Dialog} (h : ∀ p, ∀ d ∈ disk p, d.Storable) :
    (start disk).Kept where
  profiles p := ⟨nofun, nofun, nofun, fun _ => rfl, nofun, h p⟩
  active := nofun
  importing := nofun

/-- In every run in which whoever works on a list has it as it is, each key that was put into a
dialogue of a profile and not taken out again is in the session of the profile and, once its queues
are idle, in its `dialogs.json`. -/
theorem keys_kept {disk : String → List Dialog} (h : ∀ p, ∀ d ∈ disk p, d.Storable)
    (hr : Lts.Reach (step numbers) Orderly (start disk) w) (p : String) :
    (∀ l ∈ (w.profiles p).liveDialogs, KeysIn (w.profiles p).intended l)
    ∧ ((∀ s ∈ (w.profiles p).sessions, s.running = false) →
      KeysIn (w.profiles p).intended (Dialogs.reload numbers (w.profiles p).disk)) := by
  have hkept : w.Kept := hr.invariant (P := Kept) (kept_start h) fun _ _ _ _ hk hok hs =>
    hk.step hok hs
  have hst := hkept.profiles p
  refine ⟨fun l hl => ?_, fun hidle => ?_⟩
  · have hcurrent := hst.current_eq
    rw [ProfileStore.current, hl] at hcurrent
    have hall : l = (w.profiles p).intended := hcurrent
    rw [hall]
    exact .refl _
  · have hwritten := hst.written fun s hs hb => by
      have := hst.running s hs hb
      rw [hidle s hs] at this
      cases this
    rw [hwritten, Dialogs.reload_eq hst.storable]
    exact .refl _

/-- Numbers that are not exact as doubles are not read here. -/
def doubles : JsonNumbers where
  reread n := if n.toNat < 2 ^ 53 then some n else none
  exact _ h := if_pos h

/-- A login that has read the list takes it over, and its queue rests. -/
def loginOf (profileId : String) (i : Nat) : List StoreEvent :=
  ([.finishLogin 0 "me" (Vector.replicate 32 5), .take i, .write i, .rest i].map
    (.store profileId)) ++ [.setActiveSession profileId]

/-- A key exchange with a new peer. -/
def exchange (profileId peer : String) : StoreEvent :=
  .store profileId (.edit (.upsert peer peer (List.replicate 32 7) 1 false))

/-- A key exchange, and a login after it. -/
def loginAfter : List StoreEvent :=
  [.store "p" .startLogin, .store "p" (.readDialogs 0)] ++ loginOf "p" 0
    ++ [exchange "p" "bob", .store "p" (.take 0), .store "p" (.write 0), .store "p" (.rest 0),
      .store "p" .startLogin, .store "p" (.readDialogs 0),
      .store "p" (.finishLogin 0 "me" (Vector.replicate 32 5))]

theorem keys_kept_login : ∃ w, Lts.exec (step doubles) (start fun _ => []) loginAfter = some w
    ∧ ((∀ l ∈ (w.profiles "p").liveDialogs, KeysIn (w.profiles "p").intended l)
      ∧ ((∀ s ∈ (w.profiles "p").sessions, s.running = false) →
        KeysIn (w.profiles "p").intended (Dialogs.reload doubles (w.profiles "p").disk))) := by
  have hsome : (Lts.execWhile (step doubles) Orderly (start fun _ => []) loginAfter).isSome = true := by
    decide
  obtain ⟨w, hw⟩ := Option.isSome_iff_exists.mp hsome
  exact ⟨w, Lts.exec_of_execWhile hw,
    keys_kept (fun _ _ hd => absurd hd List.not_mem_nil) (Lts.Reach.refl.execWhile hw) "p"⟩

/-- The key exchange comes between what the login reads and its taking over. The session has lost
the key, and the next save takes it out of the file. -/
def loginAround : List StoreEvent :=
  [.store "p" .startLogin, .store "p" (.readDialogs 0)] ++ loginOf "p" 0
    ++ [.store "p" .startLogin, .store "p" (.readDialogs 0), exchange "p" "bob",
      .store "p" (.take 0), .store "p" (.write 0), .store "p" (.rest 0),
      .store "p" (.finishLogin 0 "me" (Vector.replicate 32 5)), .store "p" (.save 1),
      .store "p" (.take 1), .store "p" (.write 1), .store "p" (.rest 1)]

/-- An import for a session that is not the active one. -/
def importAside : List StoreEvent :=
  [.store "p" .startLogin, .store "p" (.readDialogs 0)] ++ loginOf "p" 0
    ++ [.setActiveSession none, .importRead "p" [⟨"bob", "bob", List.replicate 32 7, 1⟩], .importWrite]

theorem keys_lost :
    ((Lts.exec (step doubles) (start fun _ => []) loginAround).any fun w =>
      (∀ s ∈ (w.profiles "p").sessions, s.running = false)
        ∧ (∃ l ∈ (w.profiles "p").liveDialogs, ¬ KeysIn (w.profiles "p").intended l)
        ∧ ¬ KeysIn (w.profiles "p").intended (Dialogs.reload doubles (w.profiles "p").disk)) = true
    ∧ ((Lts.exec (step doubles) (start fun _ => []) importAside).any fun w =>
      ∃ l ∈ (w.profiles "p").liveDialogs, ¬ KeysIn (w.profiles "p").intended l) = true := by
  constructor <;> decide

end StoreWorld

end Paranoia
