import Mathlib.Data.List.Induction
import Paranoia.Client.KeyringJson
import Paranoia.Proof.Exchange
import Paranoia.Proof.KeyRotation

/-!
# Which keyrings survive

A reader that takes every entry for what it is gives back the keyring, in order. One that gives back
the keyring takes every entry for what it is: what is read ascends as the doubles do, so that none of
the numbers can have been taken for another.
-/

namespace Paranoia

namespace KeyringJson

variable {qt : QtJson} {b64 : Base64} {ring : List KeyEntry} {n m : Nat}

/-- A keyring as the client has it: different first numbers, and keys of 32 bytes. -/
structure Proper (ring : List KeyEntry) : Prop where
  apart : ring.Pairwise fun a b => a.startSeq ≠ b.startSeq
  positive : ∀ e ∈ ring, e.startSeq ≠ 0
  bound : ∀ e ∈ ring, e.startSeq < u64Size
  size : ∀ e ∈ ring, e.key.length = 32

/-! ## Reading in order -/

/-- Entries that are sorted, and of which no two start at one number. -/
def Strict (ring : List KeyEntry) : Prop := ring.Pairwise fun a b => a.startSeq < b.startSeq

theorem Strict.ascending (h : Strict ring) : Ascending ring := h.imp Nat.le_of_lt

theorem perm_sortEntries (ring : List KeyEntry) : (sortEntries ring).Perm ring :=
  List.perm_insertionSort _ _

theorem strict_sortEntries (h : ring.Pairwise fun a b => a.startSeq ≠ b.startSeq) :
    Strict (sortEntries ring) := by
  have hne : (sortEntries ring).Pairwise fun a b => a.startSeq ≠ b.startSeq :=
    (perm_sortEntries ring).symm.pairwise h (fun h => Ne.symm h)
  exact (ascending_sortEntries ring).imp₂ (fun _ _ hle hne => Nat.lt_of_le_of_ne hle hne) hne

/-- Entries of which one list is sorted strictly are the same list sorted. -/
theorem Strict.eq_of_perm {ring' : List KeyEntry} (h : Strict ring) (h' : Ascending ring')
    (hperm : ring.Perm ring') : ring = ring' := by
  have hne : ring'.Pairwise fun a b => a.startSeq ≠ b.startSeq :=
    hperm.pairwise (h.imp Nat.ne_of_lt) (fun h => Ne.symm h)
  have hstrict : Strict ring' := h'.imp₂ (fun _ _ hle hne => Nat.lt_of_le_of_ne hle hne) hne
  exact hperm.eq_of_pairwise (fun a b _ _ hab hba => absurd hab (Nat.lt_asymm hba)) h hstrict

/-- **A reader of single entries that keeps their order and gives back the keyring gives back every
entry.** -/
theorem read_eq {f : KeyEntry → Option KeyEntry} (hapart : ring.Pairwise fun a b => a.startSeq ≠ b.startSeq)
    (hmono : ∀ a ∈ ring, ∀ b ∈ ring, ∀ a' b', a.startSeq ≤ b.startSeq → f a = some a' →
      f b = some b' → a'.startSeq ≤ b'.startSeq)
    (h : sortEntries (ring.filterMap f) = sortEntries ring) : ∀ e ∈ ring, f e = some e := by
  have hread : Ascending ((sortEntries ring).filterMap f) := by
    have hmem : ∀ e ∈ sortEntries ring, e ∈ ring := fun e he => (perm_sortEntries ring).mem_iff.mp he
    refine List.pairwise_filterMap.mpr ((ascending_sortEntries ring).imp_of_mem ?_)
    exact fun {a b} ha hb hab a' ha' b' hb' => hmono a (hmem a ha) b (hmem b hb) a' b' hab ha' hb'
  have hperm : (sortEntries ring).Perm ((sortEntries ring).filterMap f) :=
    calc (sortEntries ring).Perm (sortEntries (ring.filterMap f)) := h ▸ List.Perm.refl _
      _ |>.Perm (ring.filterMap f) := perm_sortEntries _
      _ |>.Perm ((sortEntries ring).filterMap f) := (perm_sortEntries ring).symm.filterMap f
  have heq := (strict_sortEntries hapart).eq_of_perm hread hperm
  have hall : ∀ (l : List KeyEntry), l = l.filterMap f → ∀ e ∈ l, f e = some e := by
    intro l
    induction l with
    | nil => exact fun _ e he => absurd he List.not_mem_nil
    | cons a l ih =>
        intro hl e he
        cases ha : f a with
        | none =>
            have hlen := List.length_filterMap_le f l
            rw [List.filterMap_cons_none ha] at hl
            have := congrArg List.length hl
            rw [List.length_cons] at this
            omega
        | some b =>
            rw [List.filterMap_cons_some ha] at hl
            obtain ⟨rfl, hrest⟩ := List.cons.inj hl
            rcases List.mem_cons.mp he with rfl | he
            · exact ha
            · exact ih hrest e he
  exact fun e he => hall _ heq e ((perm_sortEntries ring).mem_iff.mpr he)

/-! ## The three readers -/

/-- The item of an entry. -/
def item (qt : QtJson) (b64 : Base64) (e : KeyEntry) : KeyringItem :=
  ⟨qt.print (Double.ofNat e.startSeq), b64.toBase64 e.key⟩

theorem items_eq (h : Proper ring) : items qt b64 ring = ring.map (item qt b64) := by
  unfold items
  rw [List.filter_eq_self.mpr (fun e he => by simp [h.size e he, h.positive e he])]
  rfl

theorem rawEntry_item {e : KeyEntry} (hsize : e.key.length = 32) :
    rawEntry b64 (item qt b64 e) = ((readU64 (qt.print (Double.ofNat e.startSeq))).filter (0 < ·)).map
      fun n => ⟨n, e.key⟩ := by
  unfold rawEntry item
  cases readU64 (qt.print (Double.ofNat e.startSeq)) with
  | none => rfl
  | some n =>
      rw [Option.bind_some, b64.decode_toBase64, Option.bind_some, if_pos hsize]
      cases n with
      | zero => rfl
      | succ n => rfl

theorem loadedEntry_item {e : KeyEntry} (hsize : e.key.length = 32) :
    loadedEntry qt b64 (item qt b64 e)
      = (readSeq qt (qt.print (Double.ofNat e.startSeq))).map fun n => ⟨n, e.key⟩ := by
  unfold loadedEntry item
  cases readSeq qt (qt.print (Double.ofNat e.startSeq)) with
  | none => rfl
  | some n =>
      dsimp only [Option.bind_some, Option.map_some]
      rw [b64.fromBase64_toBase64, if_pos hsize]

theorem mapM_eq_some {α β : Type} {f : α → Option β} {l : List α} {l' : List β}
    (h : l.mapM f = some l') : l.filterMap f = l' ∧ l'.length = l.length := by
  induction l generalizing l' with
  | nil =>
      cases h
      exact ⟨rfl, rfl⟩
  | cons a l ih =>
      rw [List.mapM_cons] at h
      cases ha : f a with
      | none =>
          rw [ha] at h
          cases h
      | some b =>
          cases hl : l.mapM f with
          | none =>
              rw [ha, hl] at h
              cases h
          | some bs =>
              rw [ha, hl] at h
              cases h
              obtain ⟨hfilter, hlen⟩ := ih hl
              exact ⟨by rw [List.filterMap_cons_some ha, hfilter], congrArg (· + 1) hlen⟩

theorem mapM_map_eq {α γ : Type} {g : α → γ} {f : γ → Option α} {l : List α}
    (h : ∀ a ∈ l, f (g a) = some a) : (l.map g).mapM f = some l := by
  induction l with
  | nil => rfl
  | cons a l ih =>
      rw [List.map_cons, List.mapM_cons, h a List.mem_cons_self,
        ih (fun a ha => h a (List.mem_cons_of_mem _ ha))]
      rfl

theorem filterMap_map_eq {α γ : Type} {g : α → γ} {f : γ → Option α} {l : List α}
    (h : ∀ a ∈ l, f (g a) = some a) : (l.map g).filterMap f = l := by
  rw [List.filterMap_map]
  calc l.filterMap (f ∘ g) = l.filterMap some := List.filterMap_congr h
    _ = l := List.filterMap_some

/-! ## The library -/

theorem startsApart_of_strict {ring : List KeyEntry} {previous : Option Nat}
    (hprev : ∀ p, previous = some p → ∀ e ∈ ring, p < e.startSeq) (h : Strict ring)
    (hpos : ∀ e ∈ ring, e.startSeq ≠ 0) : startsApart previous ring = true := by
  induction ring generalizing previous with
  | nil => rfl
  | cons e ring ih =>
      obtain ⟨hhead, htail⟩ := List.pairwise_cons.mp h
      rw [startsApart]
      have hne : previous ≠ some e.startSeq := fun heq =>
        Nat.lt_irrefl _ (hprev _ heq e List.mem_cons_self)
      have hrest : startsApart (some e.startSeq) ring = true :=
        ih (fun p hp a ha => Option.some.inj hp ▸ hhead a ha) htail
          (fun a ha => hpos a (List.mem_cons_of_mem _ ha))
      simp [hpos e List.mem_cons_self, hne, hrest]

theorem normalizeKeyring_proper (h : Proper ring) (hne : ring ≠ []) :
    normalizeKeyring ring = some (sortEntries ring) := by
  unfold normalizeKeyring
  rw [if_neg hne]
  dsimp only
  rw [if_pos]
  refine startsApart_of_strict (fun p hp => by cases hp) (strict_sortEntries h.apart) ?_
  exact fun e he => h.positive e ((perm_sortEntries ring).mem_iff.mp he)

theorem normalizeKeyring_some {ring ring' : List KeyEntry} (h : normalizeKeyring ring = some ring') :
    ring ≠ [] ∧ ring' = sortEntries ring := by
  unfold normalizeKeyring at h
  obtain ⟨hne, h⟩ := Option.ite_none_left_eq_some.mp h
  obtain ⟨-, h⟩ := Option.ite_none_right_eq_some.mp h
  exact ⟨hne, (Option.some.inj h).symm⟩

theorem rawEntry_some {e e' : KeyEntry} (hsize : e.key.length = 32)
    (h : rawEntry b64 (item qt b64 e) = some e') :
    readU64 (qt.print (Double.ofNat e.startSeq)) = some e'.startSeq := by
  rw [rawEntry_item hsize] at h
  obtain ⟨n, hn, rfl⟩ := Option.map_eq_some_iff.mp h
  exact (Option.filter_eq_some_iff.mp hn).1

/-- What the library gives back. -/
theorem kept_of_library (h : Proper ring)
    (hlib : dialogueConfigFromKeyringStr b64 (keyringJson qt b64 ring) = some (sortEntries ring)) :
    ring ≠ [] ∧ ∀ e ∈ ring, readU64 (qt.print (Double.ofNat e.startSeq)) = some e.startSeq := by
  unfold dialogueConfigFromKeyringStr keyringJson at hlib
  rw [items_eq h] at hlib
  obtain ⟨raw, hraw, hnorm⟩ := Option.bind_eq_some_iff.mp hlib
  obtain ⟨hne, hsorted⟩ := normalizeKeyring_some hnorm
  obtain ⟨hfilter, hlen⟩ := mapM_eq_some hraw
  rw [List.filterMap_map] at hfilter
  refine ⟨?_, ?_⟩
  · rintro rfl
    exact hne (List.length_eq_zero_iff.mp hlen)
  · have hread := read_eq (f := rawEntry b64 ∘ item qt b64) h.apart ?_ (hfilter ▸ hsorted.symm)
    · exact fun e he => rawEntry_some (h.size e he) (hread e he)
    · intro a ha b hb a' b' hab ha' hb'
      have hreada := (Option.filter_eq_some_iff.mp (rawEntry_some (h.size a ha) ha')).1
      have hreadb := (Option.filter_eq_some_iff.mp (rawEntry_some (h.size b hb) hb')).1
      exact qt.read_mono _ _ _ _ (Double.ofNat_mono hab) hreada hreadb

theorem rawEntry_kept {e : KeyEntry} (hpos : e.startSeq ≠ 0) (hsize : e.key.length = 32)
    (hkept : Kept qt e.startSeq) : rawEntry b64 (item qt b64 e) = some e := by
  rw [rawEntry_item hsize, hkept.1, Option.filter_some, if_pos (by simpa using Nat.pos_of_ne_zero hpos)]
  rfl

theorem library_of_kept (h : Proper ring) (hne : ring ≠ [])
    (hkept : ∀ e ∈ ring, Kept qt e.startSeq) :
    dialogueConfigFromKeyringStr b64 (keyringJson qt b64 ring) = some (sortEntries ring) := by
  unfold dialogueConfigFromKeyringStr keyringJson
  rw [items_eq h, mapM_map_eq (fun e he => rawEntry_kept (h.positive e he) (h.size e he) (hkept e he))]
  exact normalizeKeyring_proper h hne

/-! ## The file -/

theorem loadedEntry_some {e e' : KeyEntry} (hsize : e.key.length = 32)
    (h : loadedEntry qt b64 (item qt b64 e) = some e') :
    qt.toULongLong (qt.print (Double.ofNat e.startSeq)) = some e'.startSeq := by
  rw [loadedEntry_item hsize] at h
  obtain ⟨n, hn, rfl⟩ := Option.map_eq_some_iff.mp h
  exact (Option.filter_eq_some_iff.mp hn).1

theorem kept_of_file (h : Proper ring)
    (hfile : loadFromPath qt b64 (saveToPath qt b64 ring) = sortEntries ring) :
    ∀ e ∈ ring, qt.toULongLong (qt.print (Double.ofNat e.startSeq)) = some e.startSeq := by
  unfold loadFromPath saveToPath at hfile
  rw [items_eq h, List.filterMap_map] at hfile
  have hread := read_eq (f := loadedEntry qt b64 ∘ item qt b64) h.apart ?_ hfile
  · exact fun e he => loadedEntry_some (h.size e he) (hread e he)
  · intro a ha b hb a' b' hab ha' hb'
    exact qt.toULongLong_mono _ _ _ _ (Double.ofNat_mono hab) (loadedEntry_some (h.size a ha) ha')
      (loadedEntry_some (h.size b hb) hb')

theorem readSeq_kept (hpos : n ≠ 0) (hkept : Kept qt n) :
    readSeq qt (qt.print (Double.ofNat n)) = some n := by
  unfold readSeq
  rw [hkept.2, Option.filter_some, if_pos (by simpa using Nat.pos_of_ne_zero hpos)]

theorem file_of_kept (h : Proper ring) (hkept : ∀ e ∈ ring, Kept qt e.startSeq) :
    loadFromPath qt b64 (saveToPath qt b64 ring) = sortEntries ring := by
  unfold loadFromPath saveToPath
  rw [items_eq h, filterMap_map_eq]
  intro e he
  rw [loadedEntry_item (h.size e he), readSeq_kept (h.positive e he) (hkept e he)]
  rfl

/-! ## The import -/

/-- The key of an import for an entry. -/
def importedOf (peer peerServerId : String) (e : KeyEntry) : Dialogs.ImportedKey :=
  ⟨peer, peerServerId, e.key, UInt64.ofNat e.startSeq⟩

theorem Proper.init {e : KeyEntry} (h : Proper (ring ++ [e])) : Proper ring where
  apart := (List.pairwise_append.mp h.apart).1
  positive a ha := h.positive a (List.mem_append_left _ ha)
  bound a ha := h.bound a (List.mem_append_left _ ha)
  size a ha := h.size a (List.mem_append_left _ ha)

theorem findTarget_only {peer peerServerId : String} (keyring : List DialogKeyEntry)
    (localName : String) :
    Dialogs.findTarget [⟨peer, peerServerId, keyring, localName⟩] peer peerServerId = some 0 := by
  unfold Dialogs.findTarget
  by_cases hs : peerServerId = ""
  · simp [hs]
  · simp [hs]

theorem mergeKeyringEntry_first (peer peerServerId : String) (key : List UInt8) (startSeq : UInt64) :
    Dialogs.mergeKeyringEntry [] peer peerServerId key startSeq
      = [⟨peer, peerServerId, [⟨startSeq, key, peerServerId⟩], ""⟩] := by
  have hfind : Dialogs.findTarget [] peer peerServerId = none := by
    unfold Dialogs.findTarget
    by_cases hs : peerServerId = "" <;> simp [hs]
  unfold Dialogs.mergeKeyringEntry
  rw [hfind]
  rfl

theorem mergeKeyringEntry_more {peer peerServerId : String} {keyring : List DialogKeyEntry}
    {key : List UInt8} {startSeq : UInt64} (hfree : ∀ e ∈ keyring, e.startSeq ≠ startSeq) :
    Dialogs.mergeKeyringEntry [⟨peer, peerServerId, keyring, ""⟩] peer peerServerId key startSeq
      = [⟨peer, peerServerId, Dialogs.sorted (keyring ++ [⟨startSeq, key, peerServerId⟩]), ""⟩] := by
  have hany : keyring.any (·.startSeq = startSeq) = false :=
    List.any_eq_false.mpr fun e he => by simpa using hfree e he
  unfold Dialogs.mergeKeyringEntry
  rw [findTarget_only]
  dsimp only [List.modify_zero_cons]
  rw [hany]
  by_cases hs : peerServerId = ""
  · subst hs
    rfl
  · simp [hs]

theorem sortEntries_concat {e : KeyEntry} (h : Proper (ring ++ [e])) :
    sortEntries (sortEntries ring ++ [e]) = sortEntries (ring ++ [e]) := by
  refine ((strict_sortEntries h.apart).eq_of_perm (ascending_sortEntries _) ?_).symm
  calc (sortEntries (ring ++ [e])).Perm (ring ++ [e]) := perm_sortEntries _
    _ |>.Perm (sortEntries ring ++ [e]) := (perm_sortEntries ring).symm.append_right _
    _ |>.Perm (sortEntries (sortEntries ring ++ [e])) := (perm_sortEntries _).symm

/-- The entries of a dialogue, imported into a client without dialogues. -/
theorem importKeys_proper {peer : String} (peerServerId : String) (hpeer : peer ≠ "") (h : Proper ring)
    (hne : ring ≠ []) :
    ∃ keyring, Dialogs.importKeys [] (ring.map (importedOf peer peerServerId))
        = [⟨peer, peerServerId, keyring, ""⟩]
      ∧ keyring.map Dialogs.entryOf = sortEntries ring := by
  induction ring using List.reverseRecOn with
  | nil => exact absurd rfl hne
  | append_singleton ring e ih =>
      have hmem : e ∈ ring ++ [e] := List.mem_append_right _ List.mem_cons_self
      have hnat : (UInt64.ofNat e.startSeq).toNat = e.startSeq := UInt64.toNat_ofNat_of_lt' (h.bound e hmem)
      have hzero : UInt64.ofNat e.startSeq ≠ 0 := fun hz =>
        h.positive e hmem (hnat ▸ congrArg UInt64.toNat hz)
      have hentry : Dialogs.entryOf ⟨UInt64.ofNat e.startSeq, e.key, peerServerId⟩ = e := by
        cases e
        exact congrArg (DialogueKeyEntry.mk · _) hnat
      have hguard : ¬ ((importedOf peer peerServerId e).peer = ""
          ∨ (importedOf peer peerServerId e).startSeq = 0
          ∨ (importedOf peer peerServerId e).key.length ≠ 32) := by
        rintro (hp | hz | hk)
        · exact hpeer hp
        · exact hzero hz
        · exact hk (h.size e hmem)
      rw [List.map_append, List.map_singleton, Dialogs.importKeys, List.foldl_append]
      change ∃ keyring, Dialogs.importKey (Dialogs.importKeys [] (ring.map (importedOf peer peerServerId)))
        (importedOf peer peerServerId e) = _ ∧ _
      rw [Dialogs.importKey, if_neg hguard]
      by_cases hring : ring = []
      · -- the dialogue is opened
        subst hring
        refine ⟨[⟨UInt64.ofNat e.startSeq, e.key, peerServerId⟩],
          mergeKeyringEntry_first peer peerServerId e.key _, ?_⟩
        rw [List.map_singleton, hentry]
        rfl
      · obtain ⟨keyring, hdialogs, hkeyring⟩ := ih h.init hring
        have hfree : ∀ a ∈ keyring, a.startSeq ≠ UInt64.ofNat e.startSeq := by
          intro a ha heq
          have hin : Dialogs.entryOf a ∈ sortEntries ring := hkeyring ▸ List.mem_map_of_mem ha
          have hne := (List.pairwise_append.mp h.apart).2.2 _ ((perm_sortEntries ring).mem_iff.mp hin)
            e (List.mem_singleton_self _)
          have hstart : a.startSeq.toNat = e.startSeq := by rw [heq, hnat]
          exact hne hstart
        rw [hdialogs]
        refine ⟨_, mergeKeyringEntry_more hfree, ?_⟩
        rw [Dialogs.map_sorted, List.map_append, hkeyring, List.map_singleton]
        exact (congrArg (fun a => sortEntries (sortEntries ring ++ [a])) hentry).trans
          (sortEntries_concat h)

theorem importedKey_item {d : ExportedDialogue} {e : KeyEntry} (hpos : e.startSeq ≠ 0)
    (hsize : e.key.length = 32) (hkept : Kept qt e.startSeq) :
    importedKey qt b64 d (item qt b64 e) = some (importedOf d.peer d.peerServerId e) := by
  unfold importedKey item
  dsimp only
  rw [readSeq_kept hpos hkept, Option.bind_some, b64.decodeStrict_toBase64, Option.bind_some,
    if_pos hsize]
  rfl

theorem exportProfile_proper {peer peerServerId : String} (h : Proper ring) (hne : ring ≠ []) :
    exportProfile qt b64 peer peerServerId ring
      = some ⟨peer, peerServerId, ring.map (item qt b64)⟩ := by
  unfold exportProfile
  rw [if_neg hne, items_eq h]
  dsimp only
  rw [if_neg (by simpa using hne)]

theorem imported_of_kept {peer peerServerId : String} (hpeer : peer ≠ "") (h : Proper ring)
    (hne : ring ≠ []) (hfew : ring.length ≤ maxImportKeyEntries)
    (hkept : ∀ e ∈ ring, Kept qt e.startSeq) :
    ∃ d, (exportProfile qt b64 peer peerServerId ring).bind (applyImportedPayload qt b64) = some [d]
      ∧ d.peer = peer ∧ d.peerServerId = peerServerId ∧ entries d = sortEntries ring := by
  obtain ⟨keyring, hdialogs, hkeyring⟩ := importKeys_proper peerServerId hpeer h hne
  refine ⟨⟨peer, peerServerId, keyring, ""⟩, ?_, rfl, rfl, hkeyring⟩
  rw [exportProfile_proper h hne, Option.bind_some]
  unfold applyImportedPayload
  dsimp only
  rw [if_neg hpeer, if_neg (by simpa using hne), if_neg (by simpa using hfew)]
  have hkeys : (ring.map (item qt b64)).filterMap
      (importedKey qt b64 ⟨peer, peerServerId, ring.map (item qt b64)⟩)
        = ring.map (importedOf peer peerServerId) := by
    rw [List.filterMap_map]
    calc ring.filterMap _ = ring.filterMap (fun e => some (importedOf peer peerServerId e)) :=
          List.filterMap_congr fun e he =>
            importedKey_item (h.positive e he) (h.size e he) (hkept e he)
      _ = ring.map (importedOf peer peerServerId) := congrFun List.filterMap_eq_map ring
  rw [hkeys, hdialogs]

theorem few_of_imported {peer peerServerId : String} (hpeer : peer ≠ "") (h : Proper ring)
    (hne : ring ≠ []) {d : Dialog}
    (himport : (exportProfile qt b64 peer peerServerId ring).bind (applyImportedPayload qt b64)
      = some [d]) : ring.length ≤ maxImportKeyEntries := by
  rw [exportProfile_proper h hne, Option.bind_some] at himport
  unfold applyImportedPayload at himport
  dsimp only at himport
  rw [if_neg hpeer, if_neg (by simpa using hne), List.length_map] at himport
  by_contra hmany
  rw [if_pos (Nat.lt_of_not_le hmany)] at himport
  cases himport

/-- Below 2^63 a number is kept if it is a double. -/
theorem kept_iff (hn : Double.ofNat n < 2 ^ 63) : Kept qt n ↔ Double.ofNat n = n := by
  have hread : readU64 (Decimal.numeral (Double.ofNat n)) = some (Double.ofNat n) := by
    unfold readU64
    rw [Decimal.read?_eq_some.mpr rfl, Option.filter_some, if_pos]
    exact decide_eq_true (Nat.lt_trans hn (by decide))
  unfold Kept
  rw [qt.print_below _ hn, hread, qt.toULongLong_below _ hn]
  constructor
  · exact fun h => Option.some.inj h.1
  · exact fun h => ⟨congrArg some h, congrArg some h⟩

/-- **Which keyrings survive**: those that have entries, but no more than an import takes, each of
which starts at a number that is written as it is and read as it is; below 2^63 that is a number
that is a double. -/
theorem survives_iff (qt : QtJson) (b64 : Base64) (peer peerServerId : String) (hpeer : peer ≠ "")
    (ring : List KeyEntry) (h : Proper ring) :
    (Survives qt b64 peer peerServerId ring ↔
      ring ≠ [] ∧ ring.length ≤ maxImportKeyEntries ∧ ∀ e ∈ ring, Kept qt e.startSeq)
    ∧ ∀ n, Double.ofNat n < 2 ^ 63 → (Kept qt n ↔ Double.ofNat n = n) := by
  refine ⟨⟨fun hs => ?_, ?_⟩, fun n hn => kept_iff hn⟩
  · obtain ⟨hne, hlib⟩ := kept_of_library h hs.library
    have hfile := kept_of_file h hs.file
    obtain ⟨d, himport, -⟩ := hs.imported
    refine ⟨hne, few_of_imported hpeer h hne himport, fun e he => ⟨hlib e he, hfile e he⟩⟩
  · rintro ⟨hne, hfew, hkept⟩
    exact ⟨library_of_kept h hne hkept, file_of_kept h hkept, imported_of_kept hpeer h hne hfew hkept⟩

/-! ## A number that is no double -/

/-- Numbers of 64 bits printed as integers and read as such. -/
def plainNumbers : QtJson where
  print := Decimal.numeral
  toULongLong := readU64
  print_below _ _ := rfl
  toULongLong_below n hn := by
    unfold readU64
    rw [Decimal.read?_eq_some.mpr rfl, Option.filter_some,
      if_pos (decide_eq_true (Nat.lt_trans hn (by decide)))]
  toULongLong_lt text n h := of_decide_eq_true (Option.filter_eq_some_iff.mp h).2
  toULongLong_mono d d' n n' hle h h' := by
    have hn := Decimal.read?_eq_some.mp (Option.filter_eq_some_iff.mp h).1
    have hn' := Decimal.read?_eq_some.mp (Option.filter_eq_some_iff.mp h').1
    rw [Decimal.numeral_inj] at hn hn'
    omega
  read_mono d d' n n' hle h h' := by
    have hn := Decimal.read?_eq_some.mp h
    have hn' := Decimal.read?_eq_some.mp h'
    rw [Decimal.numeral_inj] at hn hn'
    omega

theorem map_ofNat_toNat (bytes : List UInt8) : (bytes.map UInt8.toNat).map UInt8.ofNat = bytes := by
  rw [List.map_map]
  exact (List.map_congr_left fun b _ => UInt8.ofNat_toNat).trans (List.map_id bytes)

def plainBase64 : Base64 where
  toBase64 := encodeB64
  fromBase64 text := ((decodeB64 text).getD []).map UInt8.ofNat
  decodeStrict text := (decodeB64 text).map (·.map UInt8.ofNat)
  decode text := (decodeB64 text).map (·.map UInt8.ofNat)
  fromBase64_toBase64 bytes := by
    rw [decodeB64_encodeB64]
    exact map_ofNat_toNat bytes
  decodeStrict_toBase64 bytes := by
    rw [decodeB64_encodeB64]
    exact congrArg some (map_ofNat_toNat bytes)
  decode_toBase64 bytes := by
    rw [decodeB64_encodeB64]
    exact congrArg some (map_ofNat_toNat bytes)

/-- A keyring whose second key starts at this number. -/
def ringAt (n : Nat) : List KeyEntry := [⟨1, List.replicate 32 7⟩, ⟨n, List.replicate 32 9⟩]

/-- The second key comes to start one number earlier. -/
theorem boundary_shifted :
    ¬ ∀ (qt : QtJson) (b64 : Base64) (peer peerServerId : String) (ring : List KeyEntry),
      peer ≠ "" → Proper ring → Survives qt b64 peer peerServerId ring := by
  intro h
  have hproper : Proper (ringAt (2 ^ 53 + 1)) :=
    ⟨by decide, by decide, by decide, by decide⟩
  have hlib := (h plainNumbers plainBase64 "bob" "b" _ (by decide) hproper).library
  have hkept := (kept_of_library hproper hlib).2 ⟨2 ^ 53 + 1, List.replicate 32 9⟩
    (List.mem_cons_of_mem _ List.mem_cons_self)
  have hdouble : Double.ofNat (2 ^ 53 + 1) = 2 ^ 53 := by decide +kernel
  have hread := Decimal.read?_eq_some.mp (Option.filter_eq_some_iff.mp hkept).1
  change Decimal.numeral (Double.ofNat (2 ^ 53 + 1)) = _ at hread
  rw [Decimal.numeral_inj, hdouble] at hread
  exact absurd hread (by decide)

theorem survives_ringAt : Survives plainNumbers plainBase64 "bob" "b" (ringAt 5) := by
  have hkept : ∀ e ∈ ringAt 5, Kept plainNumbers e.startSeq := by
    intro e he
    have hsmall : ∀ e ∈ ringAt 5, e.startSeq < 2 ^ 53 := by decide
    have heq := Double.ofNat_eq_self (hsmall e he)
    refine (kept_iff (Nat.lt_of_le_of_lt (Nat.le_of_eq heq) ?_)).mpr heq
    exact Nat.lt_trans (hsmall e he) (by decide)
  exact (survives_iff plainNumbers plainBase64 "bob" "b" (by decide) (ringAt 5)
    ⟨by decide, by decide, by decide, by decide⟩).1.mpr ⟨by decide, by decide, hkept⟩

end KeyringJson

end Paranoia
