import Mathlib.Data.List.Induction
import Mathlib.Data.Nat.Find
import Paranoia.Proof.KeyOps

/-!
# What the list of dialogues has

`list_dialogues` makes one pass over all the keys. The packets of a dialogue stand together, because
the keys of all of them begin with its hash, and the hashes are of one length: so a dialogue is done
with when a packet of another one comes, and the receipts and the ephemeral files before, between
and behind them are passed over.
-/

namespace Paranoia

open Lexical StoreKey KeyStore

namespace KeyStore

/-- How many bytes the packets of a dialogue have. -/
def packetBytes (entries : List (List Char × List UInt8)) (id : DialogueId) : Nat :=
  ((entries.filter (fun e => id.keyPrefix <+: e.1)).map (fun e => e.2.length)).sum

/-- A dialogue of which there are packets, with its greatest number and as many bytes as they have,
or the greatest `u64` if they have more. -/
def Tallied (entries : List (List Char × List UInt8)) (e : Listed) : Prop :=
  ∃ id : DialogueId, e.1 = id.text
    ∧ makeKey id e.2.1 ∈ entries.map (·.1)
    ∧ (∀ n, makeKey id n ∈ entries.map (·.1) → n ≤ e.2.1)
    ∧ e.2.2 = min (packetBytes entries id) (u64Size - 1)

variable {entries : List (List Char × List UInt8)} {id : DialogueId} {n : Nat} {data : List UInt8}

theorem packetBytes_concat (e : List Char × List UInt8) :
    packetBytes (entries ++ [e]) id
      = packetBytes entries id + if id.keyPrefix <+: e.1 then e.2.length else 0 := by
  unfold packetBytes
  rw [List.filter_append, List.map_append, List.sum_append]
  by_cases h : id.keyPrefix <+: e.1
  · simp [h]
  · simp [h]

theorem packetBytes_concat_self :
    packetBytes (entries ++ [(makeKey id n, data)]) id = packetBytes entries id + data.length := by
  rw [packetBytes_concat, if_pos (keyPrefix_makeKey id n)]

theorem keyPrefix_makeKey_iff {id' : DialogueId} : id'.keyPrefix <+: makeKey id n ↔ id' = id := by
  constructor
  · exact fun h => DialogueId.ext_text (eq_of_prefix_makeKey h)
  · rintro rfl
    exact keyPrefix_makeKey id' n

theorem packetBytes_concat_other {id' : DialogueId} (h : id' ≠ id) :
    packetBytes (entries ++ [(makeKey id n, data)]) id' = packetBytes entries id' := by
  rw [packetBytes_concat, if_neg (fun hpre => h (keyPrefix_makeKey_iff.mp hpre)), Nat.add_zero]

theorem packetBytes_eq_zero (h : ∀ m, makeKey id m ∉ entries.map (·.1))
    (hknown : ∀ e ∈ entries, ∃ key : StoreKey, key.Bounded ∧ key.text = e.1) :
    packetBytes entries id = 0 := by
  unfold packetBytes
  rw [List.filter_eq_nil_iff.mpr]
  · rfl
  · intro e he hpre
    obtain ⟨key, -, hkey⟩ := hknown e he
    have hkeyPrefix : id.keyPrefix <+: key.text := hkey ▸ of_decide_eq_true hpre
    obtain ⟨m, rfl⟩ := packet_of_keyPrefix hkeyPrefix
    have hmem : e.1 ∈ entries.map (·.1) := List.mem_map_of_mem he
    rw [← hkey] at hmem
    exact h m hmem

/-- Where the key of one dialogue comes before that of another, so does its hash. -/
theorem text_lt_of_makeKey_lt {id' : DialogueId} {m : Nat} (hne : id ≠ id')
    (h : makeKey id m < makeKey id' n) : id.text < id'.text := by
  have hlen : id'.text.length = id.text.length := id'.length.trans id.length.symm
  rcases lt_trichotomy id.text id'.text with hlt | heq | hgt
  · exact hlt
  · exact absurd (DialogueId.ext_text heq) hne
  · exact absurd (append_lt_append hlen hgt) (lt_asymm h)

/-! ## The pass -/

/-- What the pass has when it has met these entries: the dialogues with packets among them, in the
order of their hashes, and the last of these is the one it is in. -/
structure Grouped (entries : List (List Char × List UInt8)) (s : List Listed × Option Listed) :
    Prop where
  ascending : (listedIds s).Pairwise (· < ·)
  tallied : ∀ e, e ∈ s.1 ++ s.2.toList ↔ Tallied entries e
  current : s.2 = none → s.1 = []

theorem Grouped.nil : Grouped [] ([], none) where
  ascending := List.Pairwise.nil
  tallied e := by
    refine iff_of_false List.not_mem_nil ?_
    rintro ⟨id, -, hmem, -⟩
    cases hmem
  current _ := rfl

theorem exists_greatest {P : Nat → Prop} [DecidablePred P] {bound n : Nat}
    (hbound : ∀ m, P m → m ≤ bound) (hn : P n) : ∃ last, P last ∧ ∀ m, P m → m ≤ last :=
  ⟨Nat.findGreatest P bound, Nat.findGreatest_spec (hbound n hn) hn,
    fun m hm => Nat.le_findGreatest (hbound m hm) hm⟩

/-- A dialogue with a packet is listed. -/
theorem Grouped.listed {s : List Listed × Option Listed} (h : Grouped entries s)
    (hbound : ∀ n, makeKey id n ∈ entries.map (·.1) → n < u64Size)
    (hn : makeKey id n ∈ entries.map (·.1)) : id.text ∈ listedIds s := by
  obtain ⟨last, hlast, hle⟩ := exists_greatest (fun m hm => Nat.le_of_lt (hbound m hm)) hn
  refine List.mem_map.mpr ⟨(id.text, last, min (packetBytes entries id) (u64Size - 1)), ?_, rfl⟩
  exact (h.tallied _).mpr ⟨id, rfl, hlast, hle, rfl⟩

/-- What is listed has a packet. -/
theorem Grouped.packet {s : List Listed × Option Listed} (h : Grouped entries s) {t : List Char}
    (ht : t ∈ listedIds s) :
    ∃ (id : DialogueId) (n : Nat), t = id.text ∧ makeKey id n ∈ entries.map (·.1) := by
  obtain ⟨e, he, rfl⟩ := List.mem_map.mp ht
  obtain ⟨id, htext, hlast, -⟩ := (h.tallied e).mp he
  exact ⟨id, e.2.1, htext, hlast⟩

theorem Tallied.concat_other {key : StoreKey} (hkey : key.isPacket = false) {e : Listed} :
    Tallied (entries ++ [(key.text, data)]) e ↔ Tallied entries e := by
  have hno : ∀ (id : DialogueId), ¬ id.keyPrefix <+: key.text := by
    intro id hpre
    obtain ⟨m, rfl⟩ := packet_of_keyPrefix hpre
    cases hkey
  unfold Tallied
  refine exists_congr (fun id => and_congr_right (fun _ => ?_))
  rw [packetBytes_concat, if_neg (hno id), Nat.add_zero]
  have hmem : ∀ n, makeKey id n ∈ (entries ++ [(key.text, data)]).map (·.1)
      ↔ makeKey id n ∈ entries.map (·.1) := by
    intro n
    rw [List.map_append, List.mem_append, List.map_singleton, List.mem_singleton,
      or_iff_left_iff_imp]
    intro heq
    have hpre := keyPrefix_makeKey id n
    rw [show makeKey id n = key.text from heq] at hpre
    exact absurd hpre (hno id)
  simp only [hmem]

theorem mem_concat_makeKey {id' : DialogueId} {m : Nat} :
    makeKey id' m ∈ (entries ++ [(makeKey id n, data)]).map (·.1)
      ↔ makeKey id' m ∈ entries.map (·.1) ∨ id' = id ∧ m = n := by
  rw [List.map_append, List.mem_append, List.map_singleton, List.mem_singleton, makeKey_inj]

/-- The entries of other dialogues are counted as before. -/
theorem Tallied.concat_ne {e : Listed} (hne : e.1 ≠ id.text) :
    Tallied (entries ++ [(makeKey id n, data)]) e ↔ Tallied entries e := by
  unfold Tallied
  refine exists_congr (fun id' => and_congr_right (fun htext => ?_))
  have hid : id' ≠ id := fun h => hne (htext.trans (congrArg DialogueId.text h))
  rw [packetBytes_concat_other hid]
  simp only [mem_concat_makeKey, hid, false_and, or_false]

theorem Tallied.unique {e e' : Listed} (h : Tallied entries e) (h' : Tallied entries e')
    (heq : e.1 = e'.1) : e = e' := by
  obtain ⟨id, htext, hlast, hle, hbytes⟩ := h
  obtain ⟨id', htext', hlast', hle', hbytes'⟩ := h'
  obtain rfl := DialogueId.ext_text (htext.symm.trans (heq.trans htext'))
  refine Prod.ext heq (Prod.ext (Nat.le_antisymm (hle' _ hlast) (hle _ hlast')) ?_)
  rw [hbytes, hbytes']

/-- The first packet of a dialogue. -/
theorem Tallied.first (hnew : ∀ m, makeKey id m ∉ entries.map (·.1))
    (hknown : ∀ e ∈ entries, ∃ key : StoreKey, key.Bounded ∧ key.text = e.1)
    (hdata : data.length < u64Size) :
    Tallied (entries ++ [(makeKey id n, data)]) (id.text, n, data.length) := by
  refine ⟨id, rfl, mem_concat_makeKey.mpr (.inr ⟨rfl, rfl⟩), fun m hm => ?_, ?_⟩
  · rcases mem_concat_makeKey.mp hm with hm | ⟨-, rfl⟩
    · exact absurd hm (hnew m)
    · exact Nat.le_refl m
  · rw [packetBytes_concat_self, packetBytes_eq_zero hnew hknown]
    dsimp only
    omega

/-- One more packet of a dialogue. -/
theorem Tallied.more {last bytes : Nat} (h : Tallied entries (id.text, last, bytes)) (n : Nat)
    (data : List UInt8) :
    Tallied (entries ++ [(makeKey id n, data)])
      (id.text, max last n, saturatingAdd bytes data.length) := by
  obtain ⟨id', htext, hlast, hle, hbytes⟩ := h
  obtain rfl := DialogueId.ext_text htext
  refine ⟨id, rfl, mem_concat_makeKey.mpr ?_, fun m hm => ?_, ?_⟩
  · rcases Nat.le_total last n with hmax | hmax
    · exact .inr ⟨rfl, Nat.max_eq_right hmax⟩
    · rw [Nat.max_eq_left hmax]
      exact .inl hlast
  · rcases mem_concat_makeKey.mp hm with hm | ⟨-, rfl⟩
    · exact Nat.le_trans (hle m hm) (Nat.le_max_left _ _)
    · exact Nat.le_max_right _ _
  · rw [packetBytes_concat_self]
    dsimp only at hbytes ⊢
    rw [hbytes, saturatingAdd]
    omega

theorem listedIds_eq (s : List Listed × Option Listed) :
    listedIds s = s.1.map (·.1) ++ s.2.toList.map (·.1) := List.map_append

/-- **One packet.** -/
theorem Grouped.concat {s : List Listed × Option Listed} (h : Grouped entries s)
    (hn : n < u64Size) (hdata : data.length < u64Size)
    (hknown : ∀ e ∈ entries, ∃ key : StoreKey, key.Bounded ∧ key.text = e.1)
    (hlt : ∀ k ∈ entries.map (·.1), k < makeKey id n) :
    Grouped (entries ++ [(makeKey id n, data)]) (listEntry s (makeKey id n, data)) := by
  have hbound : ∀ (id : DialogueId) (n : Nat), makeKey id n ∈ entries.map (·.1) → n < u64Size := by
    intro id n hmem
    obtain ⟨e, he, heq⟩ := List.mem_map.mp hmem
    obtain ⟨key, hkey, htext⟩ := hknown e he
    have hpre := keyPrefix_makeKey id n
    rw [← heq, ← htext] at hpre
    obtain ⟨m, rfl⟩ := packet_of_keyPrefix hpre
    have := (makeKey_inj.mp (htext.trans heq)).2
    exact this ▸ hkey
  -- the dialogues that are listed do not come after this one
  have hle : ∀ t ∈ listedIds s, t = id.text ∨ t < id.text := by
    intro t ht
    obtain ⟨id', m, rfl, hmem⟩ := h.packet ht
    by_cases hid : id' = id
    · exact .inl (congrArg DialogueId.text hid)
    · exact .inr (text_lt_of_makeKey_lt hid (hlt _ hmem))
  have hother : ∀ e : Listed, e.1 ≠ id.text →
      (e ∈ s.1 ++ s.2.toList ↔ Tallied (entries ++ [(makeKey id n, data)]) e) :=
    fun e hne => (h.tallied e).trans (Tallied.concat_ne hne).symm
  -- the dialogue is listed for the first time
  have hfirst : id.text ∉ listedIds s →
      Grouped (entries ++ [(makeKey id n, data)])
        (s.1 ++ s.2.toList, some (id.text, n, data.length)) := by
    intro hnew
    have htally := Tallied.first (n := n) (fun m hm => hnew (h.listed (hbound id) hm)) hknown hdata
    refine ⟨?_, fun e => ?_, fun hnone => by cases hnone⟩
    · rw [listedIds_eq]
      refine List.pairwise_append.mpr ⟨h.ascending, List.pairwise_singleton _ _, ?_⟩
      intro t ht t' ht'
      rw [List.mem_singleton.mp ht']
      exact (hle t ht).resolve_left (fun heq => hnew (heq ▸ ht))
    · change e ∈ s.1 ++ s.2.toList ++ [(id.text, n, data.length)] ↔ _
      rw [List.mem_append, List.mem_singleton]
      by_cases hid : e.1 = id.text
      · refine ⟨?_, fun hyes => .inr (hyes.unique htally hid)⟩
        rintro (hmem | rfl)
        · exact absurd (hid ▸ List.mem_map_of_mem hmem) hnew
        · exact htally
      · rw [← hother e hid, or_iff_left_iff_imp]
        rintro rfl
        exact absurd rfl hid
  rw [listEntry_makeKey s id hn]
  cases hcur : s.2 with
  | none =>
      have hnil := h.current hcur
      have hnew : id.text ∉ listedIds s := by
        rw [listedIds_eq, hnil, hcur]
        exact List.not_mem_nil
      have hgrouped := hfirst hnew
      rw [hnil, hcur] at hgrouped
      dsimp only
      rw [hnil]
      exact hgrouped
  | some cur =>
      obtain ⟨cur, last, bytes⟩ := cur
      have hids : listedIds s = s.1.map (·.1) ++ [cur] := by
        rw [listedIds_eq, hcur]
        rfl
      have hsplit := List.pairwise_append.mp (hids ▸ h.ascending)
      dsimp only
      by_cases hid : cur = id.text
      · -- the dialogue goes on
        subst hid
        rw [if_pos rfl]
        have htally : Tallied entries (id.text, last, bytes) :=
          (h.tallied _).mp (by rw [hcur]; exact List.mem_append_right _ List.mem_cons_self)
        have hmore := htally.more n data
        refine ⟨?_, fun e => ?_, fun hnone => by cases hnone⟩
        · rw [listedIds_eq]
          exact hids ▸ h.ascending
        · dsimp only [Option.toList]
          rw [List.mem_append, List.mem_singleton]
          by_cases he : e.1 = id.text
          · refine ⟨?_, fun hyes => .inr (hyes.unique hmore he)⟩
            rintro (hmem | rfl)
            · have hlt := hsplit.2.2 e.1 (List.mem_map_of_mem hmem) id.text
                (List.mem_singleton_self _)
              exact absurd he (ne_of_lt hlt)
            · exact hmore
          · rw [← hother e he, hcur]
            dsimp only [Option.toList]
            rw [List.mem_append, List.mem_singleton]
            refine or_congr_right (iff_of_false ?_ ?_)
            · rintro rfl
              exact he rfl
            · rintro rfl
              exact he rfl
      · rw [if_neg hid]
        have hnew : id.text ∉ listedIds s := by
          rw [hids, List.mem_append, List.mem_singleton]
          rintro (hmem | rfl)
          · have hlt := hsplit.2.2 _ hmem cur (List.mem_singleton_self _)
            have hmem' : cur ∈ listedIds s := by
              rw [hids]
              exact List.mem_append_right _ List.mem_cons_self
            rcases hle cur hmem' with heq | hlt'
            · exact hid heq
            · exact lt_asymm hlt hlt'
          · exact hid rfl
        have hgrouped := hfirst hnew
        rw [hcur] at hgrouped
        exact hgrouped

/-- **All entries.** -/
theorem grouped_entries (ks : KeyStore (List UInt8))
    (hdata : ∀ e ∈ ks.db.entries, e.2.length < u64Size) :
    Grouped ks.db.entries (ks.db.entries.foldl listEntry ([], none)) := by
  have hknown : ∀ e ∈ ks.db.entries, ∃ key : StoreKey, key.Bounded ∧ key.text = e.1 :=
    fun e he => ks.known e.1 (List.mem_map_of_mem he)
  have hsorted := ks.db.sorted
  generalize ks.db.entries = entries at hdata hknown hsorted ⊢
  induction entries using List.reverseRecOn with
  | nil => exact Grouped.nil
  | append_singleton entries e ih =>
      obtain ⟨hinit, -, hlast⟩ := List.pairwise_append.mp hsorted
      have h := ih (fun e he => hdata e (List.mem_append_left _ he))
        (fun e he => hknown e (List.mem_append_left _ he)) hinit
      rw [List.foldl_append, List.foldl_cons, List.foldl_nil]
      obtain ⟨key, hkey, htext⟩ := hknown e (List.mem_append_right _ List.mem_cons_self)
      obtain ⟨k, data⟩ := e
      subst htext
      by_cases hp : key.isPacket = true
      · obtain ⟨id, n, rfl⟩ : ∃ id n, key = .packet id n := by
          cases key with
          | packet id n => exact ⟨id, n, rfl⟩
          | _ => cases hp
        refine h.concat hkey (hdata _ (List.mem_append_right _ List.mem_cons_self))
          (fun e he => hknown e (List.mem_append_left _ he)) (fun k hk => ?_)
        obtain ⟨e, he, rfl⟩ := List.mem_map.mp hk
        exact hlast e he _ List.mem_cons_self
      · have hp := Bool.not_eq_true _ ▸ hp
        rw [listEntry_other _ hp]
        exact ⟨h.ascending, fun e => (h.tallied e).trans (Tallied.concat_other hp).symm, h.current⟩

/-- **The list of dialogues is exact**: it has each dialogue with a packet once, with its greatest
number and the size of its packets, and nothing else. The length of a value is a `usize`. -/
theorem listDialogues_exact (ks : KeyStore (List UInt8))
    (hdata : ∀ e ∈ ks.db.entries, e.2.length < u64Size) :
    (ks.listDialogues.map (·.1)).Nodup ∧ ∀ e, e ∈ ks.listDialogues ↔ Tallied ks.db.entries e := by
  have h := grouped_entries ks hdata
  refine ⟨h.ascending.imp (fun hlt => ne_of_lt hlt), h.tallied⟩

/-- A packet beside a read position and an ephemeral file. -/
def mixedStore (id : DialogueId) : KeyStore (List UInt8) :=
  ((KeyStore.empty.put (.packet id 3) (show 3 < u64Size by decide) [1, 2]).put
    (.receipt ['b'] id.text) trivial [9]).put (.ephMeta id ['f']) trivial [7, 7, 7]

/-- The dialogue whose hash is nothing but ones. -/
def onesId : DialogueId := ⟨List.replicate 64 '1', by simp, by simp⟩

theorem listDialogues_exact_mixedStore :
    ((mixedStore onesId).listDialogues.map (·.1)).Nodup
      ∧ ∀ e, e ∈ (mixedStore onesId).listDialogues ↔ Tallied (mixedStore onesId).db.entries e :=
  listDialogues_exact (mixedStore onesId) (by
    intro e he
    rcases OrdMap.mem_put.mp he with rfl | ⟨he, -⟩
    · decide
    · rcases OrdMap.mem_put.mp he with rfl | ⟨he, -⟩
      · decide
      · rcases OrdMap.mem_put.mp he with rfl | ⟨he, -⟩
        · decide
        · cases he)

end KeyStore

end Paranoia
