import Mathlib.Data.List.Basic
import Paranoia.Lib.Double
import Paranoia.Client.ProfileImport
import Paranoia.Proof.DialogStore

/-!
# What an import keeps, and what a second one does

Each entry goes to the first dialogue that it names, adds a key where there is none, or opens a
dialogue (`importKey_cases`): so what is there stays, also when the file is read again
(`import_keeps`). First positions that are not doubles come back changed. Where all of them are, the
file holds what was merged (`savedDialogs_eq`): entries that have been merged are found again where
no dialogue with a server id takes the label of an entry without one, and then a second import
changes nothing (`import_again`).
-/

namespace Paranoia

namespace ProfileImport

open Dialogs

variable {dialogs dialogs' : List Dialog} {d d' : Dialog} {e e' : ImportedKey} {i : Nat}

/-! ## One entry -/

/-- The dialogue that an entry goes to, with the entry. -/
def merged (d : Dialog) (e : ImportedKey) : Dialog :=
  let bound := if d.peerServerId = "" then bind d e.peerServerId else d
  if d.keyring.any (·.startSeq = e.startSeq) then bound
  else { bound with keyring := sorted (d.keyring ++ [⟨e.startSeq, e.key, e.peerServerId⟩]) }

/-- By the server id that it gives, or else by its label. -/
def Names (e : ImportedKey) (d : Dialog) : Prop :=
  d.peerServerId = e.peerServerId ∧ (e.peerServerId = "" → d.peer = e.peer)

instance (e : ImportedKey) : DecidablePred (Names e) := fun _ => inferInstanceAs (Decidable (_ ∧ _))

theorem merged_peer : (merged d e).peer = d.peer := by
  unfold merged Dialogs.bind
  split_ifs <;> rfl

theorem merged_localName : (merged d e).localName = d.localName := by
  unfold merged Dialogs.bind
  split_ifs <;> rfl

theorem merged_bound (h : d.peerServerId ≠ "") : (merged d e).peerServerId = d.peerServerId := by
  unfold merged
  rw [if_neg h]
  split <;> rfl

theorem merged_peerServerId (h : d.peerServerId = e.peerServerId ∨ d.peerServerId = "") :
    (merged d e).peerServerId = e.peerServerId := by
  by_cases hd : d.peerServerId = ""
  · have hbind : (Dialogs.bind d e.peerServerId).peerServerId = e.peerServerId :=
      bind_peerServerId (.inr hd)
    unfold merged
    rw [if_pos hd]
    split
    · exact hbind
    · exact hbind
  · rw [merged_bound hd]
    exact h.resolve_right hd

theorem mem_merged {k : DialogKeyEntry} : k ∈ (merged d e).keyring ↔ k ∈ d.keyring
    ∨ (∀ a ∈ d.keyring, a.startSeq ≠ e.startSeq) ∧ k = ⟨e.startSeq, e.key, e.peerServerId⟩ := by
  have hbound : (if d.peerServerId = "" then bind d e.peerServerId else d).keyring = d.keyring := by
    unfold Dialogs.bind
    split_ifs <;> rfl
  unfold merged
  dsimp only
  split
  · rename_i hany
    obtain ⟨a, ha, heq⟩ := List.any_eq_true.mp hany
    rw [hbound]
    exact ⟨.inl, fun h => h.elim id fun h => absurd (of_decide_eq_true heq) (h.1 a ha)⟩
  · rename_i hany
    have hnone : ∀ a ∈ d.keyring, a.startSeq ≠ e.startSeq := by simpa using hany
    rw [mem_sorted, List.mem_append, List.mem_singleton]
    exact or_congr_right ⟨fun h => ⟨hnone, h⟩, And.right⟩

theorem has_merged : ∃ k ∈ (merged d e).keyring, k.startSeq = e.startSeq := by
  by_cases h : ∃ k ∈ d.keyring, k.startSeq = e.startSeq
  · obtain ⟨k, hk, heq⟩ := h
    exact ⟨k, mem_merged.mpr (.inl hk), heq⟩
  · exact ⟨_, mem_merged.mpr (.inr ⟨fun a ha heq => h ⟨a, ha, heq⟩, rfl⟩), rfl⟩

theorem keptDialog_merged : KeptDialog d (merged d e) where
  peer := merged_peer
  peerServerId := merged_bound
  localName := merged_localName
  keys _ hk := mem_merged.mpr (.inl hk)
  added k' hk' := by
    rcases mem_merged.mp hk' with hk' | ⟨hnone, rfl⟩
    · exact .inl hk'
    · exact .inr hnone

/-- A dialogue with its server id that has an entry there stays as it is. -/
theorem merged_same (hid : d.peerServerId = e.peerServerId)
    (h : ∃ k ∈ d.keyring, k.startSeq = e.startSeq) : merged d e = d := by
  obtain ⟨k, hk, heq⟩ := h
  have hany : d.keyring.any (·.startSeq = e.startSeq) = true :=
    List.any_eq_true.mpr ⟨k, hk, decide_eq_true heq⟩
  unfold merged
  rw [hany]
  dsimp only
  rw [if_pos rfl]
  split
  · rename_i hempty
    unfold Dialogs.bind
    rw [if_pos (hid.symm.trans hempty)]
  · rfl

/-- What was found is the first that the entry names, or one without a server id and with the label. -/
theorem findTarget_first (h : findTarget dialogs e.peer e.peerServerId = some i) :
    ∃ d, dialogs[i]? = some d
      ∧ (d.peerServerId = e.peerServerId
        ∨ d.peerServerId = "" ∧ ∀ c ∈ dialogs, c.peerServerId ≠ e.peerServerId)
      ∧ (e.peerServerId = "" ∨ d.peerServerId = "" → d.peer = e.peer)
      ∧ ∀ (j : Nat) (c : Dialog), j < i → dialogs[j]? = some c → ¬ Names e c := by
  obtain ⟨d, hd, hfound⟩ := findTarget_some h
  obtain ⟨hi, hget⟩ := List.getElem?_eq_some_iff.mp hd
  refine ⟨d, hd, hfound, ?_⟩
  unfold findTarget at h
  split at h
  · rename_i n hn
    cases h
    split at hn
    · cases hn
    · rename_i hs
      obtain ⟨hlt, hid, hfirst⟩ := List.findIdx?_eq_some_iff_getElem.mp hn
      have hid' : d.peerServerId = e.peerServerId := hget ▸ of_decide_eq_true hid
      refine ⟨fun hor => hor.elim (absurd · hs) fun hempty => absurd (hid'.symm.trans hempty) hs, ?_⟩
      intro j c hj hc hnames
      obtain ⟨hjlt, rfl⟩ := List.getElem?_eq_some_iff.mp hc
      exact hfirst j hj (decide_eq_true hnames.1)
  · obtain ⟨hlt, hlabel, hfirst⟩ := List.findIdx?_eq_some_iff_getElem.mp h
    have hlabel' := of_decide_eq_true hlabel
    rw [hget] at hlabel'
    refine ⟨fun _ => hlabel'.1, fun j c hj hc hnames => ?_⟩
    rename_i hnone
    by_cases hs : e.peerServerId = ""
    · obtain ⟨hjlt, rfl⟩ := List.getElem?_eq_some_iff.mp hc
      exact hfirst j hj (decide_eq_true ⟨hnames.2 hs, .inr hnames.1⟩)
    · rw [if_neg hs] at hnone
      have := List.findIdx?_eq_none_iff.mp hnone c (List.mem_of_getElem? hc)
      exact of_decide_eq_false this hnames.1

theorem findTarget_nobody (h : findTarget dialogs e.peer e.peerServerId = none) :
    ∀ c ∈ dialogs, ¬ Names e c := by
  intro c hc hnames
  by_cases hs : e.peerServerId = ""
  · unfold findTarget at h
    rw [if_pos hs] at h
    have := List.findIdx?_eq_none_iff.mp h c hc
    exact of_decide_eq_false this ⟨hnames.2 hs, .inr hnames.1⟩
  · exact findTarget_none h hs c hc hnames.1

/-- **One entry**: it is skipped, it goes to the dialogue that is found, or it opens one. -/
theorem importKey_cases (dialogs : List Dialog) (e : ImportedKey) :
    (¬ Good e ∧ importKey dialogs e = dialogs)
    ∨ (Good e ∧ ∃ i d, findTarget dialogs e.peer e.peerServerId = some i ∧ dialogs[i]? = some d
      ∧ importKey dialogs e = dialogs.set i (merged d e))
    ∨ (Good e ∧ findTarget dialogs e.peer e.peerServerId = none
      ∧ importKey dialogs e = dialogs ++ [⟨newLabel dialogs e.peer e.peerServerId, e.peerServerId,
        [⟨e.startSeq, e.key, e.peerServerId⟩], ""⟩]) := by
  unfold importKey
  split
  · rename_i hbad
    exact .inl ⟨fun hgood => hgood hbad, rfl⟩
  · rename_i hgood
    right
    unfold mergeKeyringEntry
    cases hfind : findTarget dialogs e.peer e.peerServerId with
    | none => exact .inr ⟨hgood, rfl, rfl⟩
    | some i =>
        obtain ⟨d, hd, -⟩ := findTarget_some hfind
        refine .inl ⟨hgood, i, d, rfl, hd, ?_⟩
        dsimp only
        rw [List.modify_eq_set_getElem?, hd]
        rfl

theorem Throughout.refl {R : Dialog → Dialog → Prop} (hR : ∀ d, R d d) (dialogs : List Dialog) :
    Throughout R dialogs dialogs :=
  fun _ d hd => ⟨d, hd, hR d⟩

theorem KeptDialog.refl (d : Dialog) : KeptDialog d d :=
  ⟨⟨rfl, fun _ => rfl, rfl, fun _ hk => hk⟩, fun _ hk => .inl hk⟩

theorem DialogStays.trans {d'' : Dialog} (h : DialogStays d d') (h' : DialogStays d' d'') :
    DialogStays d d'' where
  peer := h'.peer.trans h.peer
  peerServerId hd := by
    have hd' := h.peerServerId hd
    rw [h'.peerServerId (by rwa [hd']), hd']
  localName := h'.localName.trans h.localName
  keys k hk := h'.keys k (h.keys k hk)

theorem KeptDialog.trans {d'' : Dialog} (h : KeptDialog d d') (h' : KeptDialog d' d'') :
    KeptDialog d d'' where
  toDialogStays := h.toDialogStays.trans h'.toDialogStays
  added k hk := by
    rcases h'.added k hk with hk | hother
    · exact h.added k hk
    · exact .inr fun a ha => hother a (h.keys a ha)

theorem KeptDialogs.refl (dialogs : List Dialog) : KeptDialogs dialogs dialogs :=
  Throughout.refl KeptDialog.refl dialogs

theorem Throughout.trans {R : Dialog → Dialog → Prop} {dialogs'' : List Dialog}
    (hR : ∀ {a b c}, R a b → R b c → R a c) (h : Throughout R dialogs dialogs')
    (h' : Throughout R dialogs' dialogs'') : Throughout R dialogs dialogs'' := by
  intro i d hd
  obtain ⟨d', hd', hkept⟩ := h i d hd
  obtain ⟨d'', hd'', hkept'⟩ := h' i d' hd'
  exact ⟨d'', hd'', hR hkept hkept'⟩

theorem KeptDialogs.trans {dialogs'' : List Dialog} (h : KeptDialogs dialogs dialogs')
    (h' : KeptDialogs dialogs' dialogs'') : KeptDialogs dialogs dialogs'' :=
  Throughout.trans KeptDialog.trans h h'

theorem KeptDialogs.stay (h : KeptDialogs dialogs dialogs') :
    Throughout DialogStays dialogs dialogs' := by
  intro i d hd
  obtain ⟨d', hd', hkept⟩ := h i d hd
  exact ⟨d', hd', hkept.toDialogStays⟩

theorem keptDialogs_importKey (dialogs : List Dialog) (e : ImportedKey) :
    KeptDialogs dialogs (importKey dialogs e) := by
  rcases importKey_cases dialogs e with ⟨-, heq⟩ | ⟨-, i, d, -, hd, heq⟩ | ⟨-, -, heq⟩
  · rw [heq]
    exact .refl dialogs
  · intro j c hc
    rw [heq]
    by_cases hij : i = j
    · subst hij
      obtain rfl := Option.some.inj (hd.symm.trans hc)
      have hlt := (List.getElem?_eq_some_iff.mp hd).1
      exact ⟨merged d e, List.getElem?_set_self hlt, keptDialog_merged⟩
    · exact ⟨c, (List.getElem?_set_ne hij).trans hc, .refl c⟩
  · intro j c hc
    rw [heq]
    exact ⟨c, (List.getElem?_append_left (List.getElem?_eq_some_iff.mp hc).1).trans hc, .refl c⟩

/-! ## Entries that have been merged -/

/-- The first dialogue that the entry names has an entry there. -/
def Settled (dialogs : List Dialog) (e : ImportedKey) : Prop :=
  ∃ d, dialogs.find? (Names e) = some d ∧ ∃ k ∈ d.keyring, k.startSeq = e.startSeq

/-- The second entry does not take the label of the first. -/
def Clear (e e' : ImportedKey) : Prop :=
  e.peerServerId = "" → e'.peerServerId ≠ "" →
    e'.peer ≠ e.peer ∧ ∀ suffix, labelled e'.peer suffix ≠ e.peer

def Free (dialogs : List Dialog) (e : ImportedKey) : Prop :=
  e.peerServerId = "" → ∀ d ∈ dialogs, d.peer = e.peer → d.peerServerId = ""

theorem find?_first {p : Dialog → Bool} (hd : dialogs[i]? = some d) (hp : p d = true)
    (hfirst : ∀ (j : Nat) (c : Dialog), j < i → dialogs[j]? = some c → p c = false) :
    dialogs.find? p = some d := by
  obtain ⟨hi, hget⟩ := List.getElem?_eq_some_iff.mp hd
  refine List.find?_eq_some_iff_getElem.mpr ⟨hp, i, hi, hget, fun j hj => ?_⟩
  rw [hfirst j _ hj (List.getElem?_eq_getElem (hj.trans hi))]
  rfl

theorem find?_set {p : Dialog → Bool} {a : Dialog} (hd : dialogs[i]? = some d) (hp : p d' = p d)
    (ha : dialogs.find? p = some a) :
    ∃ a', (dialogs.set i d').find? p = some a' ∧ (a' = a ∨ a = d ∧ a' = d') := by
  induction dialogs generalizing i with
  | nil => cases ha
  | cons c dialogs ih =>
      cases i with
      | zero =>
          obtain rfl := Option.some.inj hd
          rw [List.set_cons_zero, List.find?_cons, hp]
          rw [List.find?_cons] at ha
          split at ha
          · obtain rfl := Option.some.inj ha
            exact ⟨d', rfl, .inr ⟨rfl, rfl⟩⟩
          · exact ⟨a, ha, .inl rfl⟩
      | succ i =>
          rw [List.set_cons_succ, List.find?_cons]
          rw [List.find?_cons] at ha
          split at ha
          · exact ⟨a, ha, .inl rfl⟩
          · exact ih hd ha

/-- What has been merged is merged no second time. -/
theorem Settled.importKey_eq (h : Settled dialogs e) : importKey dialogs e = dialogs := by
  obtain ⟨a, hfind, hkey⟩ := h
  have hmem := List.mem_of_find?_eq_some hfind
  have hfirst := List.find?_some hfind
  have hnames : Names e a := of_decide_eq_true hfirst
  rcases importKey_cases dialogs e with ⟨-, heq⟩ | ⟨-, i, d, htarget, hd, heq⟩ | ⟨-, hnone, -⟩
  · exact heq
  · obtain ⟨d', hd', hfound, hlabel, hfirst⟩ := findTarget_first htarget
    obtain rfl := Option.some.inj (hd.symm.trans hd')
    have hid : d.peerServerId = e.peerServerId :=
      hfound.resolve_right fun hfree => hfree.2 a hmem hnames.1
    have hsame : a = d := by
      have hfind' := find?_first (p := Names e) hd (decide_eq_true ⟨hid, fun hs => hlabel (.inl hs)⟩)
        fun j c hj hc => decide_eq_false (hfirst j c hj hc)
      exact Option.some.inj (hfind.symm.trans hfind')
    rw [heq, merged_same hid (hsame ▸ hkey)]
    obtain ⟨hi, hget⟩ := List.getElem?_eq_some_iff.mp hd
    rw [← hget, List.set_getElem_self]
  · exact absurd hnames (findTarget_nobody hnone a hmem)

theorem Settled.importKey (h : Settled dialogs e) (hclear : Good e' → Clear e e') :
    Settled (importKey dialogs e') e := by
  obtain ⟨a, hfind, hkey⟩ := h
  have hmem := List.mem_of_find?_eq_some hfind
  have hfirst := List.find?_some hfind
  have hnames : Names e a := of_decide_eq_true hfirst
  rcases importKey_cases dialogs e' with ⟨-, heq⟩ | ⟨hgood, i, c, htarget, hc, heq⟩ | ⟨-, -, heq⟩
  · rw [heq]
    exact ⟨a, hfind, hkey⟩
  · obtain ⟨c', hc', hfound, hlabel, -⟩ := findTarget_first htarget
    obtain rfl := Option.some.inj (hc.symm.trans hc')
    have hsame : Names e (merged c e') ↔ Names e c := by
      unfold Names
      rw [merged_peer]
      by_cases hempty : c.peerServerId = ""
      · rw [merged_peerServerId (hfound.imp_right And.left)]
        by_cases hs' : e'.peerServerId = ""
        · rw [hs', hempty]
        · -- the dialogue gets a server id, and nobody had it
          have hfree := hfound.resolve_left fun hid => hs' (hid.symm.trans hempty)
          refine iff_of_false (fun hn => hfree.2 a hmem (hnames.1.trans hn.1.symm)) fun hn => ?_
          have hs : e.peerServerId = "" := hn.1.symm.trans hempty
          exact (hclear hgood hs hs').1 ((hlabel (.inr hempty)).symm.trans (hn.2 hs))
      · rw [merged_bound hempty]
    have hdecide : decide (Names e (merged c e')) = decide (Names e c) :=
      decide_eq_decide.mpr hsame
    obtain ⟨a', hfind', ha'⟩ := find?_set (p := Names e) hc hdecide hfind
    rw [heq]
    refine ⟨a', hfind', ?_⟩
    obtain ⟨k, hk, hseq⟩ := hkey
    rcases ha' with rfl | ⟨rfl, rfl⟩
    · exact ⟨k, hk, hseq⟩
    · exact ⟨k, mem_merged.mpr (.inl hk), hseq⟩
  · rw [heq]
    refine ⟨a, ?_, hkey⟩
    rw [List.find?_append, hfind]
    rfl

theorem settled_importKey (hgood : Good e) (hfree : Free dialogs e) :
    Settled (importKey dialogs e) e := by
  rcases importKey_cases dialogs e with ⟨hbad, -⟩ | ⟨-, i, d, htarget, hd, heq⟩ | ⟨-, hnone, heq⟩
  · exact absurd hgood hbad
  · obtain ⟨d', hd', hfound, hlabel, hfirst⟩ := findTarget_first htarget
    obtain rfl := Option.some.inj (hd.symm.trans hd')
    have hlt := (List.getElem?_eq_some_iff.mp hd).1
    rw [heq]
    refine ⟨merged d e, find?_first (i := i) (List.getElem?_set_self hlt) (decide_eq_true
      ⟨merged_peerServerId (hfound.imp_right And.left), fun hs => ?_⟩) fun j c hj hc => ?_, has_merged⟩
    · rw [merged_peer]
      exact hlabel (.inl hs)
    · rw [List.getElem?_set_ne (by omega)] at hc
      exact decide_eq_false (hfirst j c hj hc)
  · rw [heq]
    refine ⟨⟨newLabel dialogs e.peer e.peerServerId, e.peerServerId,
      [⟨e.startSeq, e.key, e.peerServerId⟩], ""⟩, ?_, _, List.mem_singleton_self _, rfl⟩
    have hbefore : dialogs.find? (Names e) = none :=
      List.find?_eq_none.mpr fun c hc => by simpa using findTarget_nobody hnone c hc
    rw [List.find?_append, hbefore, Option.none_or]
    refine List.find?_cons_of_pos (decide_eq_true ⟨rfl, fun hs => ?_⟩)
    -- without a server id the label is nobody's
    have hlabel : labelTaken dialogs e.peer = false := labelTaken_eq_false.mpr fun c hc hpeer =>
      findTarget_nobody hnone c hc ⟨(hfree hs c hc hpeer).trans hs.symm, fun _ => hpeer⟩
    unfold newLabel
    rw [hlabel]
    rfl

theorem nextLabel_cases (dialogs : List Dialog) (peer : String) (k n : Nat) (label : String) :
    nextLabel dialogs peer k n label = label
      ∨ ∃ suffix, nextLabel dialogs peer k n label = labelled peer suffix := by
  induction k generalizing n label with
  | zero => exact .inl rfl
  | succ k ih =>
      rw [nextLabel]
      split
      · rcases ih (n + 1) (numbered peer n) with h | h
        · exact .inr ⟨_, h⟩
        · exact .inr h
      · exact .inl rfl

theorem newLabel_cases (dialogs : List Dialog) (peer peerServerId : String) :
    newLabel dialogs peer peerServerId = peer
      ∨ ∃ suffix, newLabel dialogs peer peerServerId = labelled peer suffix := by
  unfold newLabel
  split
  · dsimp only
    rcases nextLabel_cases dialogs peer (dialogs.length + 2) 2 _ with h | h
    · rw [h]
      split
      · exact .inl rfl
      · exact .inr ⟨_, rfl⟩
    · exact .inr h
  · exact .inl rfl

theorem Free.importKey (h : Free dialogs e) (hclear : Good e' → Clear e e') :
    Free (importKey dialogs e') e := by
  intro hs d hd hpeer
  rcases importKey_cases dialogs e' with ⟨-, heq⟩ | ⟨hgood, i, c, htarget, hc, heq⟩ | ⟨hgood, -, heq⟩
  · exact h hs d (heq ▸ hd) hpeer
  · rw [heq] at hd
    rcases List.mem_or_eq_of_mem_set hd with hd | rfl
    · exact h hs d hd hpeer
    · obtain ⟨c', hc', hfound, hlabel, -⟩ := findTarget_first htarget
      obtain rfl := Option.some.inj (hc.symm.trans hc')
      rw [merged_peer] at hpeer
      have hempty := h hs c (List.mem_of_getElem? hc) hpeer
      rw [merged_peerServerId (.inr hempty)]
      by_contra hs'
      exact (hclear hgood hs hs').1 ((hlabel (.inr hempty)).symm.trans hpeer)
  · rw [heq] at hd
    rcases List.mem_append.mp hd with hd | hd
    · exact h hs d hd hpeer
    · obtain rfl := List.mem_singleton.mp hd
      by_contra hs'
      obtain ⟨hother, hsuffix⟩ := hclear hgood hs hs'
      rcases newLabel_cases dialogs e'.peer e'.peerServerId with hlabel | ⟨suffix, hlabel⟩
      · exact hother (hlabel.symm.trans hpeer)
      · exact hsuffix suffix (hlabel.symm.trans hpeer)

/-- What each entry keeps, all of them keep. -/
theorem importKeys_keep {P : List Dialog → Prop} {keys : List ImportedKey} (h : P dialogs)
    (hstep : ∀ dialogs, P dialogs → ∀ e ∈ keys, P (importKey dialogs e)) :
    P (importKeys dialogs keys) :=
  List.foldlRecOn keys importKey h hstep

theorem Settled.importKeys {keys : List ImportedKey} (h : Settled dialogs e)
    (hclear : ∀ e' ∈ keys, Good e' → Clear e e') : Settled (importKeys dialogs keys) e :=
  importKeys_keep (P := (Settled · e)) h fun _ h e' he' => h.importKey (hclear e' he')

theorem Free.importKeys {keys : List ImportedKey} (h : Free dialogs e)
    (hclear : ∀ e' ∈ keys, Good e' → Clear e e') : Free (importKeys dialogs keys) e :=
  importKeys_keep (P := (Free · e)) h fun _ h e' he' => h.importKey (hclear e' he')

theorem settled_importKeys {keys : List ImportedKey}
    (hfree : ∀ e ∈ keys, Good e → Free dialogs e)
    (hclear : ∀ e ∈ keys, Good e → ∀ e' ∈ keys, Good e' → Clear e e') :
    ∀ e ∈ keys, Good e → Settled (importKeys dialogs keys) e := by
  induction keys generalizing dialogs with
  | nil => exact fun e he => absurd he List.not_mem_nil
  | cons a keys ih =>
      intro e he hgood
      rcases List.mem_cons.mp he with rfl | he
      · exact (settled_importKey hgood (hfree e List.mem_cons_self hgood)).importKeys
          fun e' he' => hclear e List.mem_cons_self hgood e' (List.mem_cons_of_mem _ he')
      · refine ih (fun e he hgood => ?_) (fun e he hgood e' he' => ?_) e he hgood
        · exact (hfree e (List.mem_cons_of_mem _ he) hgood).importKey
            (hclear e (List.mem_cons_of_mem _ he) hgood a List.mem_cons_self)
        · exact hclear e (List.mem_cons_of_mem _ he) hgood e' (List.mem_cons_of_mem _ he')

theorem importKey_bad (h : ¬ Good e) : importKey dialogs e = dialogs := by
  rcases importKey_cases dialogs e with ⟨-, heq⟩ | ⟨hgood, -⟩ | ⟨hgood, -⟩
  · exact heq
  · exact absurd hgood h
  · exact absurd hgood h

theorem importKeys_same {keys : List ImportedKey}
    (h : ∀ e ∈ keys, Good e → Settled dialogs e) : importKeys dialogs keys = dialogs := by
  induction keys with
  | nil => rfl
  | cons e keys ih =>
      have hstep : importKey dialogs e = dialogs := by
        by_cases hgood : Good e
        · exact (h e List.mem_cons_self hgood).importKey_eq
        · exact importKey_bad hgood
      have hfold : importKeys dialogs (e :: keys) = importKeys (importKey dialogs e) keys := rfl
      rw [hfold, hstep]
      exact ih fun e' he' => h e' (List.mem_cons_of_mem _ he')

/-! ## What is refused -/

/-- An entry is in its dialogue afterwards, or it is refused. -/
theorem stored_or_refused (hgood : Good e) :
    Stored (importKey dialogs e) e ∨ refused dialogs e = true := by
  rcases importKey_cases dialogs e with ⟨hbad, -⟩ | ⟨-, i, d, htarget, hd, heq⟩ | ⟨-, -, heq⟩
  · exact absurd hgood hbad
  · obtain ⟨d', hd', hfound, -⟩ := findTarget_first htarget
    obtain rfl := Option.some.inj (hd.symm.trans hd')
    have hlt := (List.getElem?_eq_some_iff.mp hd).1
    have hmem : merged d e ∈ importKey dialogs e :=
      heq ▸ List.mem_of_getElem? (List.getElem?_set_self hlt)
    have hid := merged_peerServerId (hfound.imp_right And.left)
    cases hfind : d.keyring.find? (·.startSeq = e.startSeq) with
    | none =>
        have hnone : ∀ a ∈ d.keyring, a.startSeq ≠ e.startSeq := fun a ha => by
          simpa using List.find?_eq_none.mp hfind a ha
        exact .inl ⟨_, hmem, fun _ => hid, _, mem_merged.mpr (.inr ⟨hnone, rfl⟩), rfl, rfl⟩
    | some k =>
        have hseq := List.find?_some hfind
        by_cases hkey : k.key = e.key
        · exact .inl ⟨_, hmem, fun _ => hid, k,
            mem_merged.mpr (.inl (List.mem_of_find?_eq_some hfind)), of_decide_eq_true hseq, hkey⟩
        · right
          unfold refused
          rw [if_neg hgood, htarget, Option.bind_some, hd]
          dsimp only
          rw [hfind]
          exact decide_eq_true hkey
  · rw [heq]
    exact .inl ⟨_, List.mem_append_right _ (List.mem_singleton_self _), fun _ => rfl, _,
      List.mem_singleton_self _, rfl, rfl⟩

theorem Stored.mono (h : Stored dialogs e) (hkept : Throughout DialogStays dialogs dialogs') :
    Stored dialogs' e := by
  obtain ⟨d, hd, hid, k, hk, heq⟩ := h
  obtain ⟨i, hi⟩ := List.mem_iff_getElem?.mp hd
  obtain ⟨d', hd', hsame⟩ := hkept i d hi
  refine ⟨d', List.mem_of_getElem? hd', fun hs => ?_, k, hsame.keys k hk, heq⟩
  rw [hsame.peerServerId (by rwa [hid hs]), hid hs]

theorem keptDialogs_importKeys (dialogs : List Dialog) (keys : List ImportedKey) :
    KeptDialogs dialogs (importKeys dialogs keys) :=
  importKeys_keep (P := KeptDialogs dialogs) (.refl dialogs)
    fun _ h e _ => h.trans (keptDialogs_importKey _ e)

theorem foldl_mergeKey (keys : List ImportedKey) (acc : List Dialog × Nat) :
    (keys.foldl mergeKey acc).1 = importKeys acc.1 keys := by
  induction keys generalizing acc with
  | nil => rfl
  | cons e keys ih => exact ih (mergeKey acc e)

/-- Each entry that is not there afterwards has been counted. -/
theorem countP_le_mergeKey (keys : List ImportedKey) (acc : List Dialog × Nat) :
    acc.2 + keys.countP (fun e => Good e ∧ ¬ Stored (importKeys acc.1 keys) e)
      ≤ (keys.foldl mergeKey acc).2 := by
  induction keys generalizing acc with
  | nil => exact Nat.le_refl _
  | cons e keys ih =>
      have hrest := ih (mergeKey acc e)
      have hfold : importKeys acc.1 (e :: keys) = importKeys (importKey acc.1 e) keys := rfl
      rw [List.countP_cons, hfold, List.foldl_cons]
      have hfirst : acc.2 + (if Good e ∧ ¬ Stored (importKeys (importKey acc.1 e) keys) e
          then 1 else 0) ≤ (mergeKey acc e).2 := by
        by_cases hlost : Good e ∧ ¬ Stored (importKeys (importKey acc.1 e) keys) e
        · have hrefused : refused acc.1 e = true := (stored_or_refused hlost.1).resolve_left
            fun hstored => hlost.2 (hstored.mono (keptDialogs_importKeys _ keys).stay)
          unfold mergeKey
          rw [if_pos hlost, hrefused, if_pos rfl]
        · unfold mergeKey
          rw [if_neg hlost]
          dsimp only
          split
          · omega
          · omega
      simp only [decide_eq_true_eq]
      have hsame : (mergeKey acc e).1 = importKey acc.1 e := rfl
      rw [hsame] at hrest
      omega

/-! ## Saving -/

variable {numbers : JsonNumbers} {keyList : List ImportedKey}

theorem rereadKey_exact {startSeq : UInt64} {key : List UInt8} (source : String)
    (hexact : numbers.reread startSeq = some startSeq) (hkey : key.length = 32) (hseq : startSeq ≠ 0) :
    rereadKey numbers ⟨startSeq, key, source⟩ = some ⟨startSeq, key, source⟩ := by
  rw [rereadKey, if_pos ⟨hkey, hseq⟩, hexact, Option.filter_some, if_pos (by simpa using hseq)]
  rfl

theorem ReadBack.merged (h : ReadBack numbers d) (hgood : Good e)
    (hexact : numbers.reread e.startSeq = some e.startSeq) : ReadBack numbers (merged d e) where
  peer := by
    rw [merged_peer]
    exact h.peer
  sorted := by
    have hbound : (if d.peerServerId = "" then bind d e.peerServerId else d).keyring = d.keyring := by
      split <;> simp
    unfold ProfileImport.merged
    dsimp only
    split
    · rw [hbound]
      exact h.sorted
    · exact sorted_pairwise _
  keys k hk := by
    rcases mem_merged.mp hk with hk | ⟨-, rfl⟩
    · exact h.keys k hk
    · exact rereadKey_exact _ hexact (not_not.mp fun hne => hgood (.inr (.inr hne)))
        fun hzero => hgood (.inr (.inl hzero))

/-- What holds of each dialogue holds of those that an entry goes to or opens. -/
theorem forall_importKey {P : Dialog → Prop} (h : ∀ d ∈ dialogs, P d)
    (hmerged : Good e → ∀ d, P d → P (merged d e))
    (hnew : Good e → ∀ label, label ≠ "" →
      P ⟨label, e.peerServerId, [⟨e.startSeq, e.key, e.peerServerId⟩], ""⟩) :
    ∀ d ∈ importKey dialogs e, P d := by
  rcases importKey_cases dialogs e with ⟨-, heq⟩ | ⟨hgood, i, c, -, hc, heq⟩ | ⟨hgood, -, heq⟩ <;>
    rw [heq]
  · exact h
  · intro d hd
    rcases List.mem_or_eq_of_mem_set hd with hd | rfl
    · exact h d hd
    · exact hmerged hgood c (h c (List.mem_of_getElem? hc))
  · exact List.forall_mem_append.mpr ⟨h, List.forall_mem_singleton.mpr (hnew hgood _
      (newLabel_ne_empty fun hempty => hgood (.inl hempty)))⟩

theorem readBack_importKeys (h : ∀ d ∈ dialogs, ReadBack numbers d)
    (hexact : ∀ e ∈ keyList, numbers.reread e.startSeq = some e.startSeq) :
    ∀ d ∈ importKeys dialogs keyList, ReadBack numbers d := by
  refine importKeys_keep (P := fun l => ∀ d ∈ l, ReadBack numbers d) h fun _ h e he => ?_
  refine forall_importKey h (fun hgood d hd => hd.merged hgood (hexact e he))
    fun hgood label hlabel => ⟨hlabel, List.pairwise_singleton _ _, ?_⟩
  exact List.forall_mem_singleton.mpr (rereadKey_exact _ (hexact e he)
    (not_not.mp fun hne => hgood (.inr (.inr hne))) fun hzero => hgood (.inr (.inl hzero)))

/-- Every dialogue has a label. -/
def Named (dialogs : List Dialog) : Prop := ∀ d ∈ dialogs, d.peer ≠ ""

theorem Named.importKeys (h : Named dialogs) : Named (importKeys dialogs keyList) :=
  importKeys_keep (P := Named) h fun _ h _ _ => forall_importKey h
    (fun _ _ hd => by rwa [merged_peer]) fun _ _ hlabel => hlabel

theorem Named.reload : Named (reload numbers dialogs) := by
  intro d hd
  obtain ⟨c, hc, rfl⟩ := List.mem_map.mp hd
  exact of_decide_eq_true (List.mem_filter.mp hc).2

/-- Entries that come back from the file stay when other dialogues and entries are saved with them. -/
theorem stay_reload {l : List Dialog} (hback : ∀ d ∈ l, ReadBack numbers d) (hnamed : Named dialogs)
    (h : Throughout DialogStays l dialogs) : Throughout DialogStays l (reload numbers dialogs) := by
  have hpeers : dialogs.filter (·.peer ≠ "") = dialogs :=
    List.filter_eq_self.mpr fun d hd => decide_eq_true (hnamed d hd)
  intro i c hc
  obtain ⟨d, hd, hstays⟩ := h i c hc
  rw [Dialogs.reload, hpeers, List.getElem?_map, hd]
  refine ⟨_, rfl, hstays.peer, hstays.peerServerId, hstays.localName, fun k hk => ?_⟩
  have hcomes := (hback c (List.mem_of_getElem? hc)).keys k hk
  exact mem_sorted.mpr (List.mem_filterMap.mpr ⟨k, hstays.keys k hk, hcomes⟩)

/-! ## The dialogues of a server -/

theorem foldl_keysOf_skipped {d : ImportedDialogue} (h : d.peer = "" ∨ d.keyring = [])
    (acc : List Dialog × Nat) : (keysOf d).foldl mergeKey acc = acc := by
  have hskip : ∀ (keys : List ImportedKey), (∀ e ∈ keys, e.peer = "") →
      keys.foldl mergeKey acc = acc := by
    intro keys hkeys
    induction keys with
    | nil => rfl
    | cons e keys ih =>
        have hpeer := hkeys e List.mem_cons_self
        have hstep : mergeKey acc e = acc := by
          have hrefused : refused acc.1 e = false := if_pos (.inl hpeer)
          have hsame : importKey acc.1 e = acc.1 := if_pos (.inl hpeer)
          unfold mergeKey
          rw [hrefused, hsame]
          rfl
        rw [List.foldl_cons, hstep]
        exact ih fun e' he' => hkeys e' (List.mem_cons_of_mem _ he')
  rcases h with h | h
  · refine hskip _ fun e he => ?_
    obtain ⟨k, -, rfl⟩ := List.mem_map.mp he
    exact h
  · unfold keysOf
    rw [h]
    rfl

/-- How many entries there are, and whether that is too many, is read off the payload alone. -/
theorem mergeDialogues_eq (acc : List Dialog × Nat) (total : Nat) (l : List ImportedDialogue) :
    mergeDialogues acc total l = (mergeDialogues ([], 0) total l).map fun r =>
      ((l.flatMap keysOf).foldl mergeKey acc, r.2) := by
  induction l generalizing acc total with
  | nil => rfl
  | cons d rest ih =>
      rw [List.flatMap_cons, List.foldl_append, mergeDialogues, mergeDialogues]
      split
      · rename_i hskip
        rw [foldl_keysOf_skipped hskip]
        exact ih acc total
      · split
        · rfl
        · rw [ih, ih ((keysOf d).foldl mergeKey ([], 0)), Option.map_map]
          rfl

/-! ## One server -/

variable {keys : SigningKeys} {st st' t : ImportState} {s : ImportedServer}
  {store store' : ImportStore}

/-- The state with the keys of the server, and with these dialogues. -/
def taken (keys : SigningKeys) (st : ImportState) (s : ImportedServer) (total : Nat)
    (saved : List Dialog) : ImportState :=
  { st with
    store := { st.store with
      privateKey := Function.update st.store.privateKey (profileOf keys s) s.signingKey
      dialogs := Function.update st.store.dialogs (profileOf keys s) saved }
    totalDialogues := st.totalDialogues + s.dialogues.length
    totalKeyEntries := total
    conflicts := ((serverKeys s).foldl mergeKey
      (st.store.dialogs (profileOf keys s), st.conflicts)).2 }

/-- What the merge makes of the dialogues of the server's profile. -/
def mergedDialogs (keys : SigningKeys) (store : ImportStore) (s : ImportedServer) : List Dialog :=
  importKeys (store.dialogs (profileOf keys s)) (serverKeys s)

/-- A key that was good for an import. -/
def Usable (keys : SigningKeys) (s : ImportedServer) : Prop :=
  s.url ≠ "" ∧ keys.decodes s.signingKey ≠ false ∧ keys.deriveServerId s.signingKey ≠ ""

def Other (keys : SigningKeys) (store : ImportStore) (s : ImportedServer) : Prop :=
  store.privateKey (profileOf keys s) ≠ "" ∧ store.privateKey (profileOf keys s) ≠ s.signingKey

/-- What the step for a server does, where these dialogues are what is saved. -/
inductive SavedStep (keys : SigningKeys) (st : ImportState) (s : ImportedServer)
    (saved : List Dialog) : ImportState → Prop
  | skipped (hurl : s.url = "") : SavedStep keys st s saved st
  | refused (husable : Usable keys s) (hother : Other keys st.store s) :
      SavedStep keys st s saved { st with conflicts := st.conflicts + 1 }
  | taken (total : Nat) (husable : Usable keys s) (hsame : ¬ Other keys st.store s)
      (hfew : ¬ maxImportDialogues < st.totalDialogues + s.dialogues.length)
      (htotal : (mergeDialogues ([], 0) st.totalKeyEntries s.dialogues).map Prod.snd = some total) :
      SavedStep keys st s saved (taken keys st s total saved)

theorem savedStep (h : importServer numbers keys st s = .ok st') :
    SavedStep keys st s
      (savedDialogs numbers st.store (profileOf keys s) (mergedDialogs keys st.store s)) st' := by
  unfold importServer at h
  split at h
  · rename_i hurl
    cases h
    exact .skipped hurl
  · rename_i hurl
    split at h
    · cases h
    · rename_i hdecodes
      split at h
      · cases h
      · rename_i hderive
        have husable : Usable keys s := ⟨hurl, hdecodes, hderive⟩
        dsimp only at h
        split at h
        · rename_i hother
          cases h
          exact .refused husable hother
        · rename_i hsame
          split at h
          · cases h
          · rename_i hfew
            rw [mergeDialogues_eq] at h
            cases hmerge : mergeDialogues ([], 0) st.totalKeyEntries s.dialogues with
            | none =>
                rw [hmerge] at h
                cases h
            | some r =>
                rw [hmerge] at h
                cases h
                rw [mergedDialogs, ← foldl_mergeKey (serverKeys s)
                  (st.store.dialogs (profileOf keys s), st.conflicts)]
                exact .taken r.2 husable hsame hfew (by rw [hmerge]; rfl)

/-- All that was merged is saved. -/
def ServerStep (keys : SigningKeys) (st : ImportState) (s : ImportedServer) (st' : ImportState) :
    Prop := SavedStep keys st s (mergedDialogs keys st.store s) st'

theorem savedDialogs_eq (hfiles : FromFiles numbers store)
    (hexact : ∀ e ∈ serverKeys s, numbers.reread e.startSeq = some e.startSeq) :
    savedDialogs numbers store (profileOf keys s) (mergedDialogs keys store s)
      = mergedDialogs keys store s := by
  unfold savedDialogs
  split
  · rfl
  · rename_i hactive
    have hback := readBack_importKeys (hfiles _ hactive) hexact
    exact reload_self fun d hd => ⟨(hback d hd).peer, (hback d hd).sorted, (hback d hd).keys⟩

theorem serverStep (hfiles : FromFiles numbers st.store)
    (hexact : ∀ e ∈ serverKeys s, numbers.reread e.startSeq = some e.startSeq)
    (h : importServer numbers keys st s = .ok st') : ServerStep keys st s st' := by
  have hstep := savedStep h
  rwa [savedDialogs_eq hfiles hexact] at hstep

theorem importServer_skipped (hurl : s.url = "") : importServer numbers keys t s = .ok t := if_pos hurl

theorem importServer_refused (husable : Usable keys s) (hother : Other keys t.store s) :
    importServer numbers keys t s = .ok { t with conflicts := t.conflicts + 1 } := by
  unfold importServer
  rw [if_neg husable.1, if_neg husable.2.1, if_neg husable.2.2]
  exact if_pos hother

theorem importServer_taken {total : Nat} (husable : Usable keys s) (hsame : ¬ Other keys t.store s)
    (hfew : ¬ maxImportDialogues < t.totalDialogues + s.dialogues.length)
    (htotal : (mergeDialogues ([], 0) t.totalKeyEntries s.dialogues).map Prod.snd = some total) :
    importServer numbers keys t s = .ok (taken keys t s total
      (savedDialogs numbers t.store (profileOf keys s) (mergedDialogs keys t.store s))) := by
  obtain ⟨r, hr, rfl⟩ := Option.map_eq_some_iff.mp htotal
  unfold importServer
  rw [if_neg husable.1, if_neg husable.2.1, if_neg husable.2.2]
  refine (if_neg hsame).trans ?_
  rw [if_neg hfew, mergeDialogues_eq, hr, mergedDialogs, ← foldl_mergeKey (serverKeys s)
    (t.store.dialogs (profileOf keys s), t.conflicts)]
  rfl

/-- Whether there is an error lies with the keys of the profiles and what has been counted. -/
theorem importServer_error {err : ImportError} (h : importServer numbers keys st s = .error err)
    (hkey : t.store.privateKey = st.store.privateKey)
    (hdialogues : t.totalDialogues = st.totalDialogues)
    (hentries : t.totalKeyEntries = st.totalKeyEntries) :
    importServer numbers keys t s = .error err := by
  unfold importServer at h ⊢
  split at h
  · cases h
  · rename_i hurl
    rw [if_neg hurl]
    split at h
    · rename_i hdecodes
      rw [if_pos hdecodes]
      exact h ▸ rfl
    · rename_i hdecodes
      rw [if_neg hdecodes]
      split at h
      · rename_i hderive
        rw [if_pos hderive]
        exact h ▸ rfl
      · rename_i hderive
        rw [if_neg hderive]
        dsimp only at h ⊢
        rw [hkey, hdialogues, hentries]
        split at h
        · cases h
        · rename_i hsame
          rw [if_neg hsame]
          split at h
          · rename_i hmany
            rw [if_pos hmany]
            exact h ▸ rfl
          · rename_i hfew
            rw [if_neg hfew]
            rw [mergeDialogues_eq] at h ⊢
            cases hmerge : mergeDialogues ([], 0) st.totalKeyEntries s.dialogues with
            | none =>
                rw [hmerge] at h
                exact h ▸ rfl
            | some r =>
                rw [hmerge] at h
                cases h

theorem taken_privateKey {total : Nat} {saved : List Dialog} :
    (taken keys st s total saved).store.privateKey (profileOf keys s) = s.signingKey :=
  Function.update_self ..

theorem taken_dialogs {total : Nat} {saved : List Dialog} :
    (taken keys st s total saved).store.dialogs (profileOf keys s) = saved :=
  Function.update_self ..

theorem taken_other {total : Nat} {saved : List Dialog} {profileId : String}
    (h : profileId ≠ profileOf keys s) :
    (taken keys st s total saved).store.dialogs profileId = st.store.dialogs profileId :=
  Function.update_of_ne h ..

theorem Usable.signingKey (h : Usable keys s) : s.signingKey ≠ "" := fun hempty =>
  h.2.1 (hempty ▸ keys.decodes_empty)

theorem stays_refl (d : Dialog) : DialogStays d d := (KeptDialog.refl d).toDialogStays

theorem Kept.refl (store : ImportStore) : Kept store store :=
  ⟨fun _ _ => rfl, fun _ => .refl stays_refl _, List.prefix_rfl⟩

theorem Kept.trans {store'' : ImportStore} (h : Kept store store') (h' : Kept store' store'') :
    Kept store store'' where
  privateKey profileId hne := by
    have heq := h.privateKey profileId hne
    rw [h'.privateKey profileId (by rwa [heq]), heq]
  dialogs profileId := Throughout.trans DialogStays.trans (h.dialogs profileId) (h'.dialogs profileId)
  admins := h.admins.trans h'.admins

/-- The keys of profiles stay, and so do dialogues if those that are saved have them. -/
theorem SavedStep.kept {saved before : List Dialog} (h : SavedStep keys st s saved st')
    (hkept : Kept store st.store) (hbefore : store.dialogs (profileOf keys s) = before)
    (hsaved : Throughout DialogStays before saved) : Kept store st'.store := by
  cases h with
  | skipped => exact hkept
  | refused => exact hkept
  | taken total husable hsame =>
      refine ⟨fun profileId hne => ?_, fun profileId => ?_, hkept.admins⟩
      · have heq := hkept.privateKey profileId hne
        by_cases hp : profileId = profileOf keys s
        · subst hp
          rw [taken_privateKey]
          by_contra hother
          exact hsame ⟨by rwa [heq], fun hsigning => hother (hsigning.symm.trans heq)⟩
        · exact (Function.update_of_ne hp ..).trans heq
      · by_cases hp : profileId = profileOf keys s
        · subst hp
          rw [taken_dialogs, hbefore]
          exact hsaved
        · rw [taken_other hp]
          exact hkept.dialogs profileId

theorem ServerStep.kept (h : ServerStep keys st s st') : Kept st.store st'.store :=
  SavedStep.kept h (.refl _) rfl (keptDialogs_importKeys _ _).stay

theorem ServerStep.keptDialogs (h : ServerStep keys st s st') (profileId : String) :
    KeptDialogs (st.store.dialogs profileId) (st'.store.dialogs profileId) := by
  cases h with
  | skipped => exact .refl _
  | refused => exact .refl _
  | taken total =>
      by_cases hp : profileId = profileOf keys s
      · subst hp
        rw [taken_dialogs]
        exact keptDialogs_importKeys _ _
      · rw [taken_other hp]
        exact .refl _

theorem SavedStep.active {saved : List Dialog} (h : SavedStep keys st s saved st') :
    st'.store.active = st.store.active := by
  cases h <;> rfl

theorem ServerStep.files (hfiles : FromFiles numbers st.store)
    (hexact : ∀ e ∈ serverKeys s, numbers.reread e.startSeq = some e.startSeq)
    (h : ServerStep keys st s st') : FromFiles numbers st'.store := by
  cases h with
  | skipped => exact hfiles
  | refused => exact hfiles
  | taken total =>
      intro profileId hactive
      by_cases hp : profileId = profileOf keys s
      · subst hp
        rw [taken_dialogs]
        exact readBack_importKeys (hfiles _ hactive) hexact
      · rw [taken_other hp]
        exact hfiles profileId hactive

/-- What was in the store at the beginning stays also in a store whose keys do not all come back. -/
structure Stays (store : ImportStore) (st : ImportState) : Prop where
  kept : Kept store st.store
  active : st.store.active = store.active
  named : ∀ profileId, store.active ≠ some profileId → Named (st.store.dialogs profileId)

theorem SavedStep.stays (hfiles : FromFiles numbers store) (h : Stays store st)
    (hstep : SavedStep keys st s
      (savedDialogs numbers st.store (profileOf keys s) (mergedDialogs keys st.store s)) st') :
    Stays store st' := by
  have hmerged : Throughout DialogStays (store.dialogs (profileOf keys s))
      (mergedDialogs keys st.store s) :=
    Throughout.trans DialogStays.trans (h.kept.dialogs _) (keptDialogs_importKeys _ _).stay
  refine ⟨hstep.kept h.kept rfl ?_, hstep.active.trans h.active, fun profileId hactive => ?_⟩
  · unfold savedDialogs
    rw [h.active]
    split
    · exact hmerged
    · rename_i hactive
      exact stay_reload (hfiles _ hactive) (h.named _ hactive).importKeys hmerged
  · cases hstep with
    | skipped => exact h.named profileId hactive
    | refused => exact h.named profileId hactive
    | taken total =>
        by_cases hp : profileId = profileOf keys s
        · subst hp
          rw [taken_dialogs, savedDialogs, h.active, if_neg hactive]
          exact .reload
        · rw [taken_other hp]
          exact h.named profileId hactive

theorem Kept.other (h : Kept store store') (hother : Other keys store s) : Other keys store' s := by
  unfold Other
  rw [h.privateKey _ hother.1]
  exact hother

/-- What a server misses is had at most once it has been tried. -/
theorem Kept.missing_le (h : Kept store store')
    (htried : s.url ≠ "" → store.privateKey (profileOf keys s) ≠ "") :
    missing keys store' s ≤ missing keys store s := by
  unfold missing
  split
  · exact Nat.le_refl _
  · rename_i hurl
    rw [h.privateKey _ (htried hurl)]
    split
    · exact Nat.le_refl _
    · refine List.countP_mono_left fun e _ hlost => ?_
      have hlost := of_decide_eq_true hlost
      exact decide_eq_true ⟨hlost.1, fun hstored => hlost.2 (hstored.mono (h.dialogs _))⟩

theorem ServerStep.missing (h : ServerStep keys st s st') :
    st.conflicts + missing keys st'.store s ≤ st'.conflicts
      ∧ (s.url ≠ "" → st'.store.privateKey (profileOf keys s) ≠ "") := by
  unfold ProfileImport.missing
  cases h with
  | skipped hurl =>
      rw [if_pos hurl]
      exact ⟨Nat.le_refl _, fun hne => absurd hurl hne⟩
  | refused husable hother =>
      rw [if_neg husable.1, if_pos hother.2]
      exact ⟨Nat.le_refl _, fun _ => hother.1⟩
  | taken total husable =>
      rw [if_neg husable.1, if_neg (by rw [taken_privateKey]; exact fun h => h rfl), taken_dialogs]
      refine ⟨countP_le_mergeKey (serverKeys s) (st.store.dialogs (profileOf keys s), st.conflicts),
        fun _ => ?_⟩
      rw [taken_privateKey]
      exact husable.signingKey

theorem SavedStep.admins {saved : List Dialog} (h : SavedStep keys st s saved st') :
    st'.store.admins = st.store.admins ∧ st'.store.savedAdmins = st.store.savedAdmins
      ∧ st'.importedAdminServers = st.importedAdminServers := by
  cases h <;> exact ⟨rfl, rfl, rfl⟩

/-! ## A second time -/

variable {all : List ImportedServer}

/-- The server has been tried: it is skipped, it has been refused, or its keys have been merged. -/
def SettledServer (keys : SigningKeys) (store : ImportStore) (s : ImportedServer) : Prop :=
  s.url = "" ∨ Other keys store s
    ∨ ∀ e ∈ serverKeys s, Good e → Settled (store.dialogs (profileOf keys s)) e

def ClearAll (keys : SigningKeys) (all : List ImportedServer) : Prop :=
  ∀ s ∈ all, ∀ e ∈ serverKeys s, Good e → ∀ s' ∈ all, profileOf keys s' = profileOf keys s →
    ∀ e' ∈ serverKeys s', Good e' → Clear e e'

def FreeAll (keys : SigningKeys) (all : List ImportedServer) (store : ImportStore) : Prop :=
  ∀ s ∈ all, ∀ e ∈ serverKeys s, Good e → Free (store.dialogs (profileOf keys s)) e

theorem clearAll_of_unclaimed (h : Unclaimed keys store all) : ClearAll keys all :=
  fun s hs e he hgood s' hs' hp e' he' hgood' hempty hne =>
    (h s hs e he hgood hempty).2 s' hs' hp e' he' hgood' hne

theorem freeAll_of_unclaimed (h : Unclaimed keys store all) : FreeAll keys all store :=
  fun s hs e he hgood hempty => (h s hs e he hgood hempty).1

theorem ServerStep.free (h : ServerStep keys st s st') (hs : s ∈ all) (hclear : ClearAll keys all)
    (hfree : FreeAll keys all st.store) : FreeAll keys all st'.store := by
  cases h with
  | skipped => exact hfree
  | refused => exact hfree
  | taken total =>
      intro a ha e he hgood
      by_cases hp : profileOf keys a = profileOf keys s
      · rw [hp, taken_dialogs, mergedDialogs, ← hp]
        exact (hfree a ha e he hgood).importKeys fun e' he' hgood' =>
          hclear a ha e he hgood s hs hp.symm e' he' hgood'
      · rw [taken_other hp]
        exact hfree a ha e he hgood

theorem ServerStep.settled (h : ServerStep keys st s st') (hs : s ∈ all)
    (hclear : ClearAll keys all) (hfree : FreeAll keys all st.store) :
    SettledServer keys st'.store s := by
  cases h with
  | skipped hurl => exact .inl hurl
  | refused _ hother => exact .inr (.inl hother)
  | taken total =>
      refine .inr (.inr ?_)
      rw [taken_dialogs]
      exact settled_importKeys (hfree s hs) fun e he hgood => hclear s hs e he hgood s hs rfl

theorem SettledServer.step {a : ImportedServer} (h : SettledServer keys st.store a)
    (hstep : ServerStep keys st s st') (ha : a ∈ all) (hs : s ∈ all) (hclear : ClearAll keys all) :
    SettledServer keys st'.store a := by
  rcases h with hurl | hother | hsettled
  · exact .inl hurl
  · exact .inr (.inl (hstep.kept.other hother))
  · refine .inr (.inr fun e he hgood => ?_)
    cases hstep with
    | skipped => exact hsettled e he hgood
    | refused => exact hsettled e he hgood
    | taken total =>
        by_cases hp : profileOf keys a = profileOf keys s
        · rw [hp, taken_dialogs, mergedDialogs, ← hp]
          exact (hsettled e he hgood).importKeys fun e' he' hgood' =>
            hclear a ha e he hgood s hs hp.symm e' he' hgood'
        · rw [taken_other hp]
          exact hsettled e he hgood

theorem taken_same {total : Nat} {saved : List Dialog}
    (hkey : t.store.privateKey (profileOf keys s) = s.signingKey)
    (hsame : saved = t.store.dialogs (profileOf keys s)) :
    (taken keys t s total saved).store = t.store := by
  unfold taken
  dsimp only
  rw [hsame, ← hkey, Function.update_eq_self, Function.update_eq_self]

/-- **A server again.** Nothing is changed, and as much is counted as the first time. -/
theorem ServerStep.again (h : ServerStep keys st s st') (hsettled : SettledServer keys t.store s)
    (hfiles : FromFiles numbers t.store)
    (hexact : ∀ e ∈ serverKeys s, numbers.reread e.startSeq = some e.startSeq)
    (hkey : ∀ profileId, st'.store.privateKey profileId ≠ "" →
      t.store.privateKey profileId = st'.store.privateKey profileId)
    (hdialogues : t.totalDialogues = st.totalDialogues)
    (hentries : t.totalKeyEntries = st.totalKeyEntries) :
    ∃ t', importServer numbers keys t s = .ok t' ∧ t'.store = t.store
      ∧ t'.totalDialogues = st'.totalDialogues ∧ t'.totalKeyEntries = st'.totalKeyEntries
      ∧ t'.importedAdminServers = t.importedAdminServers := by
  cases h with
  | skipped hurl => exact ⟨t, importServer_skipped hurl, rfl, hdialogues, hentries, rfl⟩
  | refused husable hother =>
      have hother' : Other keys t.store s := by
        unfold Other
        rw [hkey _ hother.1]
        exact hother
      exact ⟨_, importServer_refused husable hother', rfl, hdialogues, hentries, rfl⟩
  | taken total husable hsame hfew htotal =>
      have hsigning : t.store.privateKey (profileOf keys s) = s.signingKey := by
        rw [hkey, taken_privateKey]
        rw [taken_privateKey]
        exact husable.signingKey
      have hsame' : ¬ Other keys t.store s := fun hother => hother.2 hsigning
      have hkeys := (hsettled.resolve_left husable.1).resolve_left hsame'
      refine ⟨_, importServer_taken husable hsame' (hdialogues ▸ hfew) (hentries ▸ htotal),
        taken_same hsigning ((savedDialogs_eq hfiles hexact).trans (importKeys_same hkeys)), ?_,
        rfl, rfl⟩
      exact congrArg (· + s.dialogues.length) hdialogues

/-! ## The loops -/

section

variable {α : Type} {f : ImportState → α → Except ImportError ImportState} {l : List α}

theorem importAll_error {a : α} {err : ImportError} (h : f st a = .error err) :
    importAll f st (a :: l) = (st, some err) := by
  rw [importAll, h]

theorem importAll_ok {a : α} (h : f st a = .ok st') :
    importAll f st (a :: l) = importAll f st' l := by
  rw [importAll, h]

/-- What each turn keeps is kept by the loop. -/
theorem importAll_rel {R : ImportState → ImportState → Prop} (hrefl : ∀ st, R st st)
    (htrans : ∀ {a b c}, R a b → R b c → R a c)
    (hf : ∀ {st a st'}, a ∈ l → f st a = .ok st' → R st st') : R st (importAll f st l).1 := by
  induction l generalizing st with
  | nil => exact hrefl st
  | cons a l ih =>
      cases hstep : f st a with
      | error err =>
          rw [importAll_error hstep]
          exact hrefl st
      | ok st' =>
          rw [importAll_ok hstep]
          exact htrans (hf List.mem_cons_self hstep) (ih fun ha => hf (List.mem_cons_of_mem _ ha))

/-- The loop until the turn that fails. -/
theorem importAll_take {err : ImportError} (h : (importAll f st l).2 = some err) :
    ∃ n, importAll f st (l.take n) = ((importAll f st l).1, none) := by
  induction l generalizing st with
  | nil => cases h
  | cons a l ih =>
      cases hstep : f st a with
      | error err =>
          rw [importAll_error hstep]
          exact ⟨0, rfl⟩
      | ok st' =>
          rw [importAll_ok hstep] at h ⊢
          obtain ⟨n, hn⟩ := ih h
          exact ⟨n + 1, by rw [List.take_succ_cons, importAll_ok hstep, hn]⟩

end

/-- What each server keeps is kept by the loop over the servers, if all keys come back. -/
theorem importAll_steps {R : ImportState → ImportState → Prop} (hrefl : ∀ st, R st st)
    (htrans : ∀ {a b c}, R a b → R b c → R a c) {l : List ImportedServer}
    (hexact : ExactKeys numbers l) (hf : ∀ {st s st'}, s ∈ l → ServerStep keys st s st' → R st st')
    (hfiles : FromFiles numbers st.store) :
    R st (importAll (importServer numbers keys) st l).1
      ∧ FromFiles numbers (importAll (importServer numbers keys) st l).1.store := by
  refine importAll_rel
    (R := fun a b => FromFiles numbers a.store → R a b ∧ FromFiles numbers b.store)
    (fun st h => ⟨hrefl st, h⟩) (fun hab hbc ha => ?_) (fun hs h ha => ?_) hfiles
  · obtain ⟨hfirst, hb⟩ := hab ha
    obtain ⟨hsecond, hc⟩ := hbc hb
    exact ⟨htrans hfirst hsecond, hc⟩
  · have hstep := serverStep ha (hexact _ hs) h
    exact ⟨hf hs hstep, hstep.files ha (hexact _ hs)⟩

theorem kept_importAll (keys : SigningKeys) {l : List ImportedServer} (hexact : ExactKeys numbers l)
    (hfiles : FromFiles numbers st.store) :
    Kept st.store (importAll (importServer numbers keys) st l).1.store :=
  (importAll_steps (R := fun a b => Kept a.store b.store) (fun _ => .refl _)
    (fun h h' => h.trans h') hexact (fun _ h => h.kept) hfiles).1

theorem importAll_missing (keys : SigningKeys) (st : ImportState) {l : List ImportedServer}
    (hexact : ExactKeys numbers l)
    (hfiles : FromFiles numbers st.store)
    (h : (importAll (importServer numbers keys) st l).2 = none) :
    st.conflicts + (l.map (missing keys (importAll (importServer numbers keys) st l).1.store)).sum
      ≤ (importAll (importServer numbers keys) st l).1.conflicts := by
  induction l generalizing st with
  | nil => exact Nat.le_refl _
  | cons s l ih =>
      obtain ⟨hexact, hexacts⟩ := List.forall_mem_cons.mp hexact
      cases hstep : importServer numbers keys st s with
      | error err =>
          rw [importAll_error hstep] at h
          cases h
      | ok st' =>
          rw [importAll_ok hstep] at h ⊢
          have hserver := serverStep hfiles hexact hstep
          have hfiles' := hserver.files hfiles hexact
          have hrest := ih st' hexacts hfiles' h
          obtain ⟨hfirst, htried⟩ := hserver.missing
          have hle := (kept_importAll keys hexacts hfiles').missing_le htried
          rw [List.map_cons, List.sum_cons]
          omega

/-- **The servers again.** -/
theorem importAll_again (st t : ImportState) (hclear : ClearAll keys all)
    {l : List ImportedServer} (hl : l ⊆ all) (hexact : ExactKeys numbers l) (hfiles : FromFiles numbers st.store)
    (hagain : FromFiles numbers t.store) (hfree : FreeAll keys all st.store)
    (hkey : t.store.privateKey = (importAll (importServer numbers keys) st l).1.store.privateKey)
    (hdialogs : t.store.dialogs = (importAll (importServer numbers keys) st l).1.store.dialogs)
    (hdialogues : t.totalDialogues = st.totalDialogues)
    (hentries : t.totalKeyEntries = st.totalKeyEntries) :
    ∃ t', importAll (importServer numbers keys) t l
        = (t', (importAll (importServer numbers keys) st l).2)
      ∧ t'.store = t.store ∧ t'.importedAdminServers = t.importedAdminServers := by
  induction l generalizing st t with
  | nil => exact ⟨t, rfl, rfl, rfl⟩
  | cons s l ih =>
      have hs : s ∈ all := hl List.mem_cons_self
      obtain ⟨hexact, hexacts⟩ := List.forall_mem_cons.mp hexact
      cases hstep : importServer numbers keys st s with
      | error err =>
          rw [importAll_error hstep] at hkey ⊢
          exact ⟨t, importAll_error (importServer_error hstep hkey hdialogues hentries), rfl, rfl⟩
      | ok st' =>
          rw [importAll_ok hstep] at hkey hdialogs ⊢
          have hserver := serverStep hfiles hexact hstep
          have hfiles' := hserver.files hfiles hexact
          have hrest : ∀ a ∈ l, a ∈ all := fun a ha => hl (List.mem_cons_of_mem _ ha)
          have hkept := kept_importAll keys hexacts hfiles'
          have hsettled : SettledServer keys (importAll (importServer numbers keys) st' l).1.store s :=
            (importAll_steps
              (R := fun a b => SettledServer keys a.store s → SettledServer keys b.store s)
              (fun _ h => h) (fun h h' => h' ∘ h) hexacts
              (fun ha h hsettled => hsettled.step h hs (hrest _ ha) hclear) hfiles').1
              (hserver.settled hs hclear hfree)
          have hsettled' : SettledServer keys t.store s := by
            unfold SettledServer Other at hsettled ⊢
            rw [hkey, hdialogs]
            exact hsettled
          obtain ⟨t', hturn, hstore, hd, he, hadmin⟩ := hserver.again hsettled' hagain hexact
            (fun profileId hne => by rw [hkey]; exact hkept.privateKey profileId hne)
            hdialogues hentries
          obtain ⟨t'', hrun, hstore', hadmin'⟩ := ih st' t' hrest hexacts hfiles' (hstore ▸ hagain)
            (hserver.free hs hclear hfree) (hstore ▸ hkey) (hstore ▸ hdialogs) hd he
          exact ⟨t'', (importAll_ok hturn).trans hrun, hstore'.trans hstore, hadmin'.trans hadmin⟩

/-! ## Administrated servers -/

variable {a : AdminServer}

/-- The list does not lack the server. -/
def HasAdmin (admins : List AdminServer) (a : AdminServer) : Prop :=
  (a.url = "" ∨ a.privateKey = "") ∨ admins.any (·.url = a.url) = true

structure AdminStep (st : ImportState) (a : AdminServer) (st' : ImportState) : Prop where
  active : st'.store.active = st.store.active
  privateKey : st'.store.privateKey = st.store.privateKey
  dialogs : st'.store.dialogs = st.store.dialogs
  savedAdmins : st'.store.savedAdmins = st.store.savedAdmins
  conflicts : st'.conflicts = st.conflicts
  admins : st.store.admins <+: st'.store.admins
  has : HasAdmin st'.store.admins a

theorem adminStep (h : importAdminServer keys st a = .ok st') : AdminStep st a st' := by
  unfold importAdminServer at h
  split at h
  · rename_i hskip
    cases h
    exact ⟨rfl, rfl, rfl, rfl, rfl, List.prefix_rfl, .inl hskip⟩
  · split at h
    · cases h
    · split at h
      · rename_i hthere
        cases h
        exact ⟨rfl, rfl, rfl, rfl, rfl, List.prefix_rfl, .inr hthere⟩
      · cases h
        refine ⟨rfl, rfl, rfl, rfl, rfl, List.prefix_append _ _, .inr ?_⟩
        exact List.any_eq_true.mpr ⟨a, List.mem_append_right _ (List.mem_singleton_self a),
          decide_eq_true rfl⟩

theorem importAdminServer_again (hhas : HasAdmin t.store.admins a)
    (h : importAdminServer keys st a = .ok st') : importAdminServer keys t a = .ok t := by
  unfold importAdminServer at h ⊢
  split at h
  · rename_i hskip
    exact if_pos hskip
  · rename_i hskip
    split at h
    · cases h
    · rename_i hdecodes
      rw [if_neg hskip, if_neg hdecodes]
      exact if_pos (hhas.resolve_left hskip)

theorem importAdminServer_error {err : ImportError} (h : importAdminServer keys st a = .error err) :
    importAdminServer keys t a = .error err := by
  unfold importAdminServer at h ⊢
  split at h
  · cases h
  · rename_i hskip
    split at h
    · rename_i hdecodes
      rw [if_neg hskip, if_pos hdecodes]
      exact h ▸ rfl
    · split at h
      · cases h
      · cases h

theorem HasAdmin.mono {admins admins' : List AdminServer} (h : HasAdmin admins a)
    (hbefore : admins <+: admins') : HasAdmin admins' a := by
  refine h.imp_right fun hany => ?_
  obtain ⟨b, hb, heq⟩ := List.any_eq_true.mp hany
  exact List.any_eq_true.mpr ⟨b, hbefore.subset hb, heq⟩

theorem importAll_admins_again {l : List AdminServer}
    (hadmins : (importAll (importAdminServer keys) st l).1.store.admins <+: t.store.admins) :
    importAll (importAdminServer keys) t l = (t, (importAll (importAdminServer keys) st l).2) := by
  induction l generalizing st with
  | nil => rfl
  | cons a l ih =>
      cases hstep : importAdminServer keys st a with
      | error err =>
          rw [importAll_error hstep, importAll_error (importAdminServer_error hstep)]
      | ok st' =>
          rw [importAll_ok hstep] at hadmins ⊢
          have hgrows : st'.store.admins
              <+: (importAll (importAdminServer keys) st' l).1.store.admins :=
            importAll_rel (R := fun a b => a.store.admins <+: b.store.admins)
              (fun _ => List.prefix_rfl) (fun h h' => h.trans h') fun _ h => (adminStep h).admins
          have hhas := (adminStep hstep).has.mono (hgrows.trans hadmins)
          rw [importAll_ok (importAdminServer_again hhas hstep)]
          exact ih hadmins

theorem AdminStep.kept (h : AdminStep st a st') : Kept st.store st'.store :=
  ⟨fun _ _ => by rw [h.privateKey], fun _ => h.dialogs ▸ .refl stays_refl _, h.admins⟩

/-- Where the administrated servers alone have come to. -/
structure AdminRun (st st' : ImportState) : Prop where
  active : st'.store.active = st.store.active
  privateKey : st'.store.privateKey = st.store.privateKey
  dialogs : st'.store.dialogs = st.store.dialogs
  savedAdmins : st'.store.savedAdmins = st.store.savedAdmins
  conflicts : st'.conflicts = st.conflicts

theorem adminRun (keys : SigningKeys) (st : ImportState) (l : List AdminServer) :
    AdminRun st (importAdminServers keys st l).1 := by
  unfold importAdminServers
  split
  · exact ⟨rfl, rfl, rfl, rfl, rfl⟩
  · refine importAll_rel (fun _ => ⟨rfl, rfl, rfl, rfl, rfl⟩) (fun h h' => ?_) fun _ h => ?_
    · exact ⟨h'.active.trans h.active, h'.privateKey.trans h.privateKey,
        h'.dialogs.trans h.dialogs, h'.savedAdmins.trans h.savedAdmins,
        h'.conflicts.trans h.conflicts⟩
    · have hstep := adminStep h
      exact ⟨hstep.active, hstep.privateKey, hstep.dialogs, hstep.savedAdmins, hstep.conflicts⟩

/-- What was there stays, whether or not the keys that are imported come back. -/
theorem kept_importServers (keys : SigningKeys) (hfiles : FromFiles numbers store)
    (l : List ImportedServer) : Kept store (importServers numbers keys (begun store) l).1.store := by
  unfold importServers
  split
  · exact .refl _
  · have hstart : Stays store (begun store) := ⟨.refl _, rfl, fun profileId hactive d hd =>
      (hfiles profileId hactive d hd).peer⟩
    exact (importAll_rel (R := fun a b => Stays store a → Stays store b) (fun _ h => h)
      (fun h h' => h' ∘ h) (fun _ h hstays => (savedStep h).stays hfiles hstays) hstart).kept

/-- If all keys come back, no other key comes where there is one. -/
theorem keptDialogs_importServers (keys : SigningKeys) (st : ImportState)
    (hfiles : FromFiles numbers st.store)
    {l : List ImportedServer} (hexact : ExactKeys numbers l) :
    (∀ profileId, KeptDialogs (st.store.dialogs profileId)
        ((importServers numbers keys st l).1.store.dialogs profileId))
      ∧ FromFiles numbers (importServers numbers keys st l).1.store := by
  unfold importServers
  split
  · exact ⟨fun _ => .refl _, hfiles⟩
  · exact importAll_steps (R := fun a b => ∀ profileId,
      KeptDialogs (a.store.dialogs profileId) (b.store.dialogs profileId)) (fun _ _ => .refl _)
      (fun h h' profileId => (h profileId).trans (h' profileId)) hexact
      (fun _ h => h.keptDialogs) hfiles

theorem FromFiles.congr (h : FromFiles numbers store) (hactive : store'.active = store.active)
    (hdialogs : store'.dialogs = store.dialogs) : FromFiles numbers store' := by
  unfold FromFiles
  rw [hactive, hdialogs]
  exact h

theorem kept_importAdminServers (keys : SigningKeys) (st : ImportState) (l : List AdminServer) :
    Kept st.store (importAdminServers keys st l).1.store := by
  unfold importAdminServers
  split
  · exact .refl _
  · exact importAll_rel (R := fun a b => Kept a.store b.store) (fun _ => .refl _)
      (fun h h' => h.trans h') fun _ h => (adminStep h).kept

/-- The servers leave the list of administrated ones alone. -/
theorem admins_importServers (numbers : JsonNumbers) (keys : SigningKeys) (st : ImportState)
    (l : List ImportedServer) :
    (importServers numbers keys st l).1.store.admins = st.store.admins
      ∧ (importServers numbers keys st l).1.store.savedAdmins = st.store.savedAdmins
      ∧ (importServers numbers keys st l).1.importedAdminServers = st.importedAdminServers := by
  unfold importServers
  split
  · exact ⟨rfl, rfl, rfl⟩
  · refine importAll_rel (R := fun a b => b.store.admins = a.store.admins
      ∧ b.store.savedAdmins = a.store.savedAdmins
      ∧ b.importedAdminServers = a.importedAdminServers) (fun _ => ⟨rfl, rfl, rfl⟩)
      (fun h h' => ⟨h'.1.trans h.1, h'.2.1.trans h.2.1, h'.2.2.trans h.2.2⟩)
      fun _ h => (savedStep h).admins

theorem kept_saved (st : ImportState) : Kept st.store (saved st) := by
  unfold saved
  split
  · exact ⟨fun _ _ => rfl, fun _ => .refl stays_refl _, List.prefix_rfl⟩
  · exact .refl _

theorem missing_congr (hkey : store'.privateKey = store.privateKey)
    (hdialogs : store'.dialogs = store.dialogs) (s : ImportedServer) :
    missing keys store' s = missing keys store s := by
  unfold missing
  rw [hkey, hdialogs]

theorem saved_active (st : ImportState) : (saved st).active = st.store.active := by
  unfold saved
  split <;> rfl

theorem saved_privateKey (st : ImportState) : (saved st).privateKey = st.store.privateKey := by
  unfold saved
  split <;> rfl

theorem saved_dialogs (st : ImportState) : (saved st).dialogs = st.store.dialogs := by
  unfold saved
  split <;> rfl

theorem saved_admins (st : ImportState) : (saved st).admins = st.store.admins := by
  unfold saved
  split <;> rfl

theorem saved_eq (h : st.importedAdminServers = 0) : saved st = st.store := by
  unfold saved
  rw [h]
  rfl

/-! ## The import -/

variable {p : ProfilePayload}

/-- **How an import ends**: with the servers, with the administrated ones, or well. -/
theorem applyImportedPayload_cases (numbers : JsonNumbers) (keys : SigningKeys)
    (store : ImportStore) (p : ProfilePayload) :
    (∃ st err, importServers numbers keys (begun store) (p.servers.getD []) = (st, some err)
      ∧ applyImportedPayload numbers keys store (some p) = (st.store, .error err))
    ∨ ∃ st, importServers numbers keys (begun store) (p.servers.getD []) = (st, none)
      ∧ ((∃ st' err, importAdminServers keys st (p.adminServers.getD []) = (st', some err)
          ∧ applyImportedPayload numbers keys store (some p) = (st'.store, .error err))
        ∨ ∃ st', importAdminServers keys st (p.adminServers.getD []) = (st', none)
          ∧ applyImportedPayload numbers keys store (some p) = (saved st', .ok st'.conflicts)) := by
  unfold applyImportedPayload
  dsimp only
  rcases hservers : importServers numbers keys (begun store) (p.servers.getD []) with ⟨st, _ | err⟩
  · refine .inr ⟨st, rfl, ?_⟩
    rcases hadmins : importAdminServers keys st (p.adminServers.getD []) with ⟨st', _ | err⟩
    · exact .inr ⟨st', rfl, by dsimp only; rw [hadmins]⟩
    · exact .inl ⟨st', err, rfl, by dsimp only; rw [hadmins]⟩
  · exact .inl ⟨st, err, rfl, rfl⟩

theorem import_keeps (keys : SigningKeys) (hfiles : FromFiles numbers store)
    (payload : Option ProfilePayload) :
    Kept store (applyImportedPayload numbers keys store payload).1 := by
  cases payload with
  | none => exact .refl store
  | some p =>
      have hservers := kept_importServers keys hfiles (p.servers.getD [])
      rcases applyImportedPayload_cases numbers keys store p with
        ⟨st, err, hrun, heq⟩ | ⟨st, hrun, hrest⟩
      · rw [heq]
        rwa [hrun] at hservers
      · rw [hrun] at hservers
        have hadmins := kept_importAdminServers keys st (p.adminServers.getD [])
        rcases hrest with ⟨st', err, hrun', heq⟩ | ⟨st', hrun', heq⟩
        · rw [heq]
          rw [hrun'] at hadmins
          exact hservers.trans hadmins
        · rw [heq]
          rw [hrun'] at hadmins
          exact (hservers.trans hadmins).trans (kept_saved st')

/-- The servers alone have to do with the profiles that are there in the end. -/
theorem import_profiles (numbers : JsonNumbers) (keys : SigningKeys) (store : ImportStore)
    (p : ProfilePayload) :
    (applyImportedPayload numbers keys store (some p)).1.active
        = (importServers numbers keys (begun store) (p.servers.getD [])).1.store.active
      ∧ (applyImportedPayload numbers keys store (some p)).1.dialogs
        = (importServers numbers keys (begun store) (p.servers.getD [])).1.store.dialogs := by
  rcases applyImportedPayload_cases numbers keys store p with
    ⟨st, err, hrun, heq⟩ | ⟨st, hrun, hrest⟩
  · rw [heq, hrun]
    exact ⟨rfl, rfl⟩
  · have hadmin := adminRun keys st (p.adminServers.getD [])
    rw [hrun]
    rcases hrest with ⟨st', err, hrun', heq⟩ | ⟨st', hrun', heq⟩
    · rw [heq]
      rw [hrun'] at hadmin
      exact ⟨hadmin.active, hadmin.dialogs⟩
    · rw [heq]
      rw [hrun'] at hadmin
      exact ⟨(saved_active st').trans hadmin.active, (saved_dialogs st').trans hadmin.dialogs⟩

/-- Where all keys come back, dialogues get no other key where they have one. -/
theorem import_adds (keys : SigningKeys) (hfiles : FromFiles numbers store)
    (hexact : ExactKeys numbers (p.servers.getD [])) :
    (∀ profileId, KeptDialogs (store.dialogs profileId)
        ((applyImportedPayload numbers keys store (some p)).1.dialogs profileId))
      ∧ FromFiles numbers (applyImportedPayload numbers keys store (some p)).1 := by
  obtain ⟨hactive, hdialogs⟩ := import_profiles numbers keys store p
  obtain ⟨hkept, hfiles'⟩ := keptDialogs_importServers keys (begun store) hfiles hexact
  exact ⟨fun profileId => hdialogs ▸ hkept profileId, hfiles'.congr hactive hdialogs⟩

/-- Every key that has been refused is counted. -/
theorem import_counts {n : Nat} (hfiles : FromFiles numbers store)
    (hexact : ExactKeys numbers (p.servers.getD []))
    (h : (applyImportedPayload numbers keys store (some p)).2 = .ok n) :
    ((p.servers.getD []).map
      (missing keys (applyImportedPayload numbers keys store (some p)).1)).sum ≤ n := by
  rcases applyImportedPayload_cases numbers keys store p with ⟨st, err, -, heq⟩ | ⟨st, hrun, hrest⟩
  · rw [heq] at h
    cases h
  · rcases hrest with ⟨st', err, -, heq⟩ | ⟨st', hrun', heq⟩
    · rw [heq] at h
      cases h
    · rw [heq] at h ⊢
      cases h
      have hadmin := adminRun keys st (p.adminServers.getD [])
      rw [hrun'] at hadmin
      unfold importServers at hrun
      split at hrun
      · cases hrun
      · have hcount := importAll_missing keys (begun store) hexact hfiles (by rw [hrun])
        rw [hrun] at hcount
        have hsame : missing keys (saved st') = missing keys st.store := funext fun s =>
          missing_congr ((saved_privateKey st').trans hadmin.privateKey)
            ((saved_dialogs st').trans hadmin.dialogs) s
        have hzero : (begun store).conflicts = 0 := rfl
        rw [hzero, Nat.zero_add] at hcount
        rw [hsame, hadmin.conflicts]
        exact hcount

/-- Servers that have been imported, from the start, over a store with what they have left. -/
theorem importServers_again {st : ImportState} {err : Option ImportError}
    {servers : List ImportedServer} (hfiles : FromFiles numbers store)
    (hexact : ExactKeys numbers servers) (h : Unclaimed keys store servers)
    (hrun : importServers numbers keys (begun store) servers = (st, err))
    (hagain : FromFiles numbers store') (hkey : store'.privateKey = st.store.privateKey)
    (hdialogs : store'.dialogs = st.store.dialogs) :
    ∃ t, importServers numbers keys (begun store') servers = (t, err) ∧ t.store = store'
      ∧ t.importedAdminServers = 0 := by
  unfold importServers at hrun ⊢
  split at hrun
  · rename_i hmany
    cases hrun
    rw [if_pos hmany]
    exact ⟨begun store', rfl, rfl, rfl⟩
  · rename_i hfew
    rw [if_neg hfew]
    obtain ⟨t, ht, hstore, hadmins⟩ := importAll_again (begun store) (begun store')
      (clearAll_of_unclaimed h) (List.Subset.refl _) hexact hfiles hagain (freeAll_of_unclaimed h)
      (by rw [hrun]; exact hkey) (by rw [hrun]; exact hdialogs) rfl rfl
    rw [hrun] at ht
    exact ⟨t, ht, hstore, hadmins⟩

theorem importAdminServers_again {err : Option ImportError} {admins : List AdminServer}
    (hrun : importAdminServers keys st admins = (st', err))
    (hadmins : st'.store.admins <+: t.store.admins) :
    importAdminServers keys t admins = (t, err) := by
  unfold importAdminServers at hrun ⊢
  split at hrun
  · rename_i hmany
    cases hrun
    exact if_pos hmany
  · rename_i hfew
    have hgrown : (importAll (importAdminServer keys) st admins).1.store.admins
        <+: t.store.admins := by
      rw [hrun]
      exact hadmins
    rw [if_neg hfew, importAll_admins_again hgrown, hrun]

/-- **A second import** changes nothing. -/
theorem import_again (hfiles : FromFiles numbers store)
    (hexact : ExactKeys numbers (p.servers.getD [])) (h : Unclaimed keys store (p.servers.getD [])) :
    (applyImportedPayload numbers keys (applyImportedPayload numbers keys store (some p)).1 (some p)).1
      = (applyImportedPayload numbers keys store (some p)).1 := by
  have hfiles' := (import_adds keys hfiles hexact).2
  generalize hagain : (applyImportedPayload numbers keys store (some p)).1 = store' at hfiles' ⊢
  rcases applyImportedPayload_cases numbers keys store p with ⟨st, err, hrun, heq⟩ | ⟨st, hrun, hrest⟩
  · rw [heq] at hagain
    subst hagain
    obtain ⟨t, ht, hstore, -⟩ := importServers_again hfiles hexact h hrun hfiles' rfl rfl
    unfold applyImportedPayload
    dsimp only
    rw [ht]
    exact hstore
  · have hadmin := adminRun keys st (p.adminServers.getD [])
    rcases hrest with ⟨st', err, hrun', heq⟩ | ⟨st', hrun', heq⟩
    · rw [heq] at hagain
      subst hagain
      rw [hrun'] at hadmin
      obtain ⟨t, ht, hstore, -⟩ := importServers_again hfiles hexact h hrun hfiles'
        hadmin.privateKey hadmin.dialogs
      have ht' := importAdminServers_again (t := t) hrun' (hstore ▸ List.prefix_rfl)
      unfold applyImportedPayload
      dsimp only
      rw [ht]
      dsimp only
      rw [ht']
      exact hstore
    · rw [heq] at hagain
      subst hagain
      rw [hrun'] at hadmin
      obtain ⟨t, ht, hstore, hzero⟩ := importServers_again hfiles hexact h hrun hfiles'
        ((saved_privateKey st').trans hadmin.privateKey) ((saved_dialogs st').trans hadmin.dialogs)
      have hbefore : st'.store.admins <+: t.store.admins := by
        rw [hstore]
        exact (saved_admins st').symm ▸ List.prefix_rfl
      have ht' := importAdminServers_again hrun' hbefore
      unfold applyImportedPayload
      dsimp only
      rw [ht]
      dsimp only
      rw [ht']
      exact (saved_eq hzero).trans hstore

theorem getD_map_take {α : Type} (l : Option (List α)) (n : Nat) :
    (l.map (List.take n)).getD [] = (l.getD []).take n := by
  cases l with
  | none => exact List.take_nil.symm
  | some l => rfl

theorem importServers_take {err : ImportError} {servers : List ImportedServer}
    (h : importServers numbers keys st servers = (st', some err)) :
    ∃ n, importServers numbers keys st (servers.take n) = (st', none) := by
  unfold importServers at h
  split at h
  · cases h
    exact ⟨0, rfl⟩
  · rename_i hfew
    have hfails : (importAll (importServer numbers keys) st servers).2 = some err := by rw [h]
    obtain ⟨n, hn⟩ := importAll_take hfails
    refine ⟨n, ?_⟩
    unfold importServers
    rw [if_neg (by rw [List.length_take]; omega), hn, h]

theorem importAdminServers_take {err : ImportError} {admins : List AdminServer}
    (h : importAdminServers keys st admins = (st', some err)) :
    ∃ n, importAdminServers keys st (admins.take n) = (st', none) := by
  unfold importAdminServers at h
  split at h
  · cases h
    exact ⟨0, rfl⟩
  · rename_i hfew
    have hfails : (importAll (importAdminServer keys) st admins).2 = some err := by rw [h]
    obtain ⟨n, hn⟩ := importAll_take hfails
    refine ⟨n, ?_⟩
    unfold importAdminServers
    rw [if_neg (by rw [List.length_take]; omega), hn, h]

theorem applyImportedPayload_ok {n m : Nat}
    (hrun : importServers numbers keys (begun store) ((p.servers.getD []).take n) = (st, none))
    (hrun' : importAdminServers keys st ((p.adminServers.getD []).take m) = (st', none)) :
    applyImportedPayload numbers keys store
        (some ⟨p.servers.map (List.take n), p.adminServers.map (List.take m)⟩)
      = (saved st', .ok st'.conflicts) := by
  unfold applyImportedPayload
  dsimp only
  rw [getD_map_take, getD_map_take, hrun]
  dsimp only
  rw [hrun']

theorem saved_before (st : ImportState) {admins : List AdminServer}
    (h : st.store.savedAdmins = admins) : { saved st with savedAdmins := admins } = st.store := by
  subst h
  unfold saved
  split <;> rfl

/-- **An error** leaves what the servers and the administrated ones before it have brought. -/
theorem import_fails {err : ImportError}
    (h : (applyImportedPayload numbers keys store (some p)).2 = .error err) :
    ∃ n m before conflicts, applyImportedPayload numbers keys store
        (some ⟨p.servers.map (List.take n), p.adminServers.map (List.take m)⟩)
          = (before, .ok conflicts)
      ∧ (applyImportedPayload numbers keys store (some p)).1
        = { before with savedAdmins := store.savedAdmins } := by
  obtain ⟨-, hsaved, -⟩ := admins_importServers numbers keys (begun store) (p.servers.getD [])
  rcases applyImportedPayload_cases numbers keys store p with ⟨st, err, hrun, heq⟩ | ⟨st, hrun, hrest⟩
  · obtain ⟨n, hn⟩ := importServers_take hrun
    rw [hrun] at hsaved
    refine ⟨n, 0, _, _, applyImportedPayload_ok hn rfl, ?_⟩
    rw [heq]
    exact (saved_before st hsaved).symm
  · rw [hrun] at hsaved
    rcases hrest with ⟨st', err, hrun', heq⟩ | ⟨st', -, heq⟩
    · obtain ⟨m, hm⟩ := importAdminServers_take hrun'
      have hadmin := adminRun keys st (p.adminServers.getD [])
      rw [hrun'] at hadmin
      refine ⟨(p.servers.getD []).length, m, _, _, applyImportedPayload_ok
        (by rw [List.take_length, hrun]) hm, ?_⟩
      rw [heq]
      exact (saved_before st' (hadmin.savedAdmins.trans hsaved)).symm
    · rw [heq] at h
      cases h

/-- **Imports.** What is there stays. If all first positions are doubles, every key of a profile or of
a dialogue that is refused is counted, and a second import changes nothing, unless an entry without a
server id has the label of a dialogue with one. An error leaves what an import of the servers before
it leaves. -/
theorem import_sound (numbers : JsonNumbers) (keys : SigningKeys) (store : ImportStore)
    (payload : Option ProfilePayload) :
    (FromFiles numbers store →
      Kept store (applyImportedPayload numbers keys store payload).1
      ∧ ∀ p, payload = some p → ExactKeys numbers (p.servers.getD []) →
        (∀ profileId, KeptDialogs (store.dialogs profileId)
          ((applyImportedPayload numbers keys store payload).1.dialogs profileId))
        ∧ (∀ n, (applyImportedPayload numbers keys store payload).2 = .ok n →
          ((p.servers.getD []).map
            (missing keys (applyImportedPayload numbers keys store payload).1)).sum ≤ n)
        ∧ (Unclaimed keys store (p.servers.getD []) →
          (applyImportedPayload numbers keys
            (applyImportedPayload numbers keys store payload).1 payload).1
              = (applyImportedPayload numbers keys store payload).1))
    ∧ ∀ err, (applyImportedPayload numbers keys store payload).2 = .error err →
      (payload = none ∧ (applyImportedPayload numbers keys store payload).1 = store)
      ∨ ∃ p n m before conflicts, payload = some p
        ∧ applyImportedPayload numbers keys store
          (some ⟨p.servers.map (List.take n), p.adminServers.map (List.take m)⟩)
            = (before, .ok conflicts)
        ∧ (applyImportedPayload numbers keys store payload).1
          = { before with savedAdmins := store.savedAdmins } := by
  refine ⟨fun hfiles => ⟨import_keeps keys hfiles payload, ?_⟩, fun err h => ?_⟩
  · rintro p rfl hexact
    exact ⟨(import_adds keys hfiles hexact).1, fun n h => import_counts hfiles hexact h,
      import_again hfiles hexact⟩
  · cases payload with
    | none => exact .inl ⟨rfl, rfl⟩
    | some p =>
        obtain ⟨n, m, before, conflicts, hok, heq⟩ := import_fails h
        exact .inr ⟨p, n, m, before, conflicts, rfl, hok, heq⟩

/-! ## Examples -/

/-- Keys are taken to be in form if they have the length, and ids are the keys. -/
def plainKeys : SigningKeys where
  decodes key := key.length = 44
  deriveServerId key := key
  profileIdFor url serverId := url ++ "_" ++ serverId
  decodes_empty := by decide

/-- Numbers from 2^63 on are not read, the others are rounded. -/
def roundedNumbers : JsonNumbers where
  reread n := if n.toNat < 2 ^ 63 then some (UInt64.ofNat (Double.ofNat n.toNat)) else none
  exact n h := by
    rw [if_pos (by omega), Double.ofNat_eq_self h, UInt64.ofNat_toNat]

def aliceKey : String := "AAAAAAAAAAAAAAAAAAAAAAAAAAAAAAAAAAAAAAAAAAA="

def aliceProfile : String := "https://a_" ++ aliceKey

/-- Alice has a dialogue with Bob. -/
def aliceStore : ImportStore where
  active := none
  privateKey profileId := if profileId = aliceProfile then aliceKey else ""
  dialogs profileId :=
    if profileId = aliceProfile then [⟨"bob", "b", [⟨1, List.replicate 32 0, "b"⟩], ""⟩] else []
  admins := [⟨"https://a", "old"⟩]
  savedAdmins := [⟨"https://a", "old"⟩]

/-- A key for a dialogue. -/
def bobKey (startSeq : UInt64) (key : UInt8) (peerServerId : String) : ImportedDialogue :=
  ⟨"bob", peerServerId, [(startSeq, List.replicate 32 key)]⟩

def bobPayload (dialogues : List ImportedDialogue) : ProfilePayload :=
  ⟨some [⟨"https://a", aliceKey, dialogues⟩], none⟩

theorem aliceStore_fromFiles : FromFiles roundedNumbers aliceStore := by
  intro profileId _ d hd
  unfold aliceStore at hd
  dsimp only at hd
  split at hd
  · obtain rfl := List.mem_singleton.mp hd
    refine ⟨by decide, List.pairwise_singleton _ _, fun k hk => ?_⟩
    obtain rfl := List.mem_singleton.mp hk
    rfl
  · cases hd

theorem import_sound_bob :
    (applyImportedPayload roundedNumbers plainKeys aliceStore
        (some (bobPayload [bobKey 2 7 "b"]))).2 = .ok 0
      ∧ (applyImportedPayload roundedNumbers plainKeys (applyImportedPayload roundedNumbers plainKeys
          aliceStore (some (bobPayload [bobKey 2 7 "b"]))).1 (some (bobPayload [bobKey 2 7 "b"]))).1
        = (applyImportedPayload roundedNumbers plainKeys aliceStore
          (some (bobPayload [bobKey 2 7 "b"]))).1 := by
  refine ⟨by decide +kernel, (((import_sound roundedNumbers plainKeys aliceStore
    (some (bobPayload [bobKey 2 7 "b"]))).1 aliceStore_fromFiles).2 _ rfl ?_).2.2 ?_⟩
  · intro s hs e he
    obtain rfl := List.mem_singleton.mp hs
    obtain rfl := List.mem_singleton.mp he
    exact roundedNumbers.exact 2 (by decide)
  · intro s hs e he _ hempty
    obtain rfl := List.mem_singleton.mp hs
    obtain rfl := List.mem_singleton.mp he
    exact absurd hempty (by decide)

/-- The first server stays imported where the second one has a bad key; another key for a server that
is administrated is refused and not counted; a key for a Bob without a server id opens a dialogue each
time; and a first position that is no double comes back as another one, so the second import does not
find the key and adds it again. -/
theorem import_not_whole :
    ((applyImportedPayload roundedNumbers plainKeys ⟨none, fun _ => "", fun _ => [], [], []⟩
        (some ⟨some [⟨"https://a", aliceKey, []⟩, ⟨"https://b", "bad", []⟩], none⟩)).2
          = .error .signingKey
      ∧ (applyImportedPayload roundedNumbers plainKeys ⟨none, fun _ => "", fun _ => [], [], []⟩
        (some ⟨some [⟨"https://a", aliceKey, []⟩, ⟨"https://b", "bad", []⟩], none⟩)).1.privateKey
          aliceProfile = aliceKey)
    ∧ ((applyImportedPayload roundedNumbers plainKeys aliceStore
          (some ⟨none, some [⟨"https://a", aliceKey⟩]⟩)).2 = .ok 0
      ∧ (applyImportedPayload roundedNumbers plainKeys aliceStore
        (some ⟨none, some [⟨"https://a", aliceKey⟩]⟩)).1.admins = aliceStore.admins)
    ∧ (applyImportedPayload roundedNumbers plainKeys (applyImportedPayload roundedNumbers plainKeys
          aliceStore (some (bobPayload [bobKey 2 7 ""]))).1
          (some (bobPayload [bobKey 2 7 ""]))).1.dialogs aliceProfile
      ≠ (applyImportedPayload roundedNumbers plainKeys aliceStore
          (some (bobPayload [bobKey 2 7 ""]))).1.dialogs aliceProfile
    ∧ (applyImportedPayload roundedNumbers plainKeys (applyImportedPayload roundedNumbers plainKeys
          aliceStore (some (bobPayload [bobKey 9007199254740993 7 "b"]))).1
          (some (bobPayload [bobKey 9007199254740993 7 "b"]))).1.dialogs aliceProfile
      ≠ (applyImportedPayload roundedNumbers plainKeys aliceStore
          (some (bobPayload [bobKey 9007199254740993 7 "b"]))).1.dialogs aliceProfile := by
  decide +kernel

end ProfileImport

end Paranoia
