import Paranoia.Lib.Runs
import Paranoia.Spec
import Paranoia.Client.TopicDeletion

/-!
# What is deleted with a topic

The runs that are sent are the numbers of the messages and what their attachments claim as bodies,
no more and no less: sorting, merging and deleting by ranges loses nothing and adds nothing. But the
claims are the sender's. Where they are what was really sent as chunks of the transfers, and nothing of
a kept message is among it, the deletion touches only its own; where they are not, it does not.
-/

namespace Paranoia

/-! ## Sorting and merging -/

theorem mem_dedup {l : List Nat} {s : Nat} : s ∈ dedup l ↔ s ∈ l := by
  induction l using dedup.induct with
  | case1 b rest ih =>
      rw [dedup, if_pos rfl, ih]
      simp
  | case2 a b rest hne ih =>
      rw [dedup, if_neg hne, List.mem_cons, ih]
      exact List.mem_cons.symm
  | case3 rest hrest =>
      rw [dedup]
      exact hrest

theorem dedup_sorted {l : List Nat} (h : l.Pairwise (· ≤ ·)) : (dedup l).Pairwise (· < ·) := by
  induction l using dedup.induct with
  | case1 b rest ih =>
      rw [dedup, if_pos rfl]
      exact ih (List.pairwise_cons.mp h).2
  | case2 a b rest hne ih =>
      obtain ⟨ha, htail⟩ := List.pairwise_cons.mp h
      rw [dedup, if_neg hne]
      refine List.pairwise_cons.mpr ⟨fun s hs => ?_, ih htail⟩
      have hab := ha b List.mem_cons_self
      rcases List.mem_cons.mp (mem_dedup.mp hs) with rfl | hs
      · omega
      · have := (List.pairwise_cons.mp htail).1 s hs
        omega
  | case3 rest hrest =>
      rw [dedup]
      · cases rest with
        | nil => exact List.Pairwise.nil
        | cons a rest =>
            cases rest with
            | nil => exact List.pairwise_singleton _ _
            | cons b rest => exact absurd rfl (hrest a b rest)
      · exact hrest

/-- The runs of an ascending rest, with the run it goes on from. -/
theorem covers_runsFrom {start fin s : Nat} {rest : List Nat} (hle : start ≤ fin)
    (hrest : ∀ t ∈ rest, fin < t) (hsorted : rest.Pairwise (· < ·)) :
    Runs.Covers (runsFrom start fin rest) s ↔ (start ≤ s ∧ s ≤ fin) ∨ s ∈ rest := by
  induction rest generalizing start fin with
  | nil => simp [runsFrom]
  | cons t rest ih =>
      obtain ⟨ht, htail⟩ := List.pairwise_cons.mp hsorted
      have hlt := hrest t List.mem_cons_self
      rw [runsFrom]
      split
      -- the run goes on
      · rename_i heq
        rw [ih (by omega) ht htail, List.mem_cons]
        constructor
        · rintro (⟨hs, hst⟩ | hs)
          · by_cases h : s = t
            · exact .inr (.inl h)
            · exact .inl ⟨hs, by omega⟩
          · exact .inr (.inr hs)
        · rintro (⟨hs, hsf⟩ | rfl | hs)
          · exact .inl ⟨hs, by omega⟩
          · exact .inl ⟨by omega, Nat.le_refl _⟩
          · exact .inr hs
      · rw [Runs.covers_cons, ih (Nat.le_refl t) ht htail, List.mem_cons]
        refine or_congr_right (or_congr_left ⟨fun h => ?_, fun h => ?_⟩)
        · omega
        · omega

/-- **Runs cover what they are made of.** -/
theorem covers_contiguousRuns {l : List Nat} (h : l.Pairwise (· < ·)) {s : Nat} :
    Runs.Covers (contiguousRuns l) s ↔ s ∈ l := by
  cases l with
  | nil => simp [contiguousRuns]
  | cons first rest =>
      obtain ⟨hfirst, htail⟩ := List.pairwise_cons.mp h
      rw [contiguousRuns, covers_runsFrom (Nat.le_refl _) hfirst htail, List.mem_cons]
      refine or_congr_left ⟨fun h => ?_, fun h => ?_⟩
      · omega
      · omega

/-! ## What is planned and sent -/

/-- The message has this number. -/
def At (m : Message) (s : Nat) : Prop := m.serverSeq = some s

/-- The attachment of the message claims the number for its body. -/
def Claims (m : Message) (s : Nat) : Prop :=
  ∃ seq file, m.serverSeq = some seq ∧ attachmentRef m.content = some file
    ∧ seq ≤ file.bodyToSeq ∧ (seq + 1) % u64Size ≤ s ∧ s ≤ file.bodyToSeq

theorem mem_serverSeqsOf {m : Message} {s : Nat} : s ∈ serverSeqsOf m ↔ At m s ∨ Claims m s := by
  unfold serverSeqsOf At Claims
  cases hseq : m.serverSeq with
  | none => simp
  | some seq =>
      cases hfile : attachmentRef m.content with
      | none => simp [eq_comm]
      | some file =>
          dsimp only
          rw [List.mem_cons, Option.some.injEq, eq_comm (a := s)]
          refine or_congr_right ?_
          split
          · rename_i hle
            rw [List.mem_range'_1]
            constructor
            · rintro ⟨hs, hlt⟩
              exact ⟨seq, file, rfl, rfl, hle, hs, by omega⟩
            · rintro ⟨seq', file', hseq', hfile', -, hs, hst⟩
              cases hseq'
              cases hfile'
              exact ⟨hs, by omega⟩
          · rename_i hgt
            constructor
            · exact fun habs => absurd habs List.not_mem_nil
            · rintro ⟨seq', file', hseq', hfile', hle, -⟩
              cases hseq'
              cases hfile'
              exact absurd hle hgt

theorem covers_plannedRuns {msgs : List Message} {s : Nat} :
    Runs.Covers (plannedRuns msgs) s ↔ ∃ m ∈ msgs, At m s ∨ Claims m s := by
  have hsorted := dedup_sorted ((msgs.flatMap serverSeqsOf).pairwise_insertionSort (· ≤ ·))
  rw [plannedRuns, covers_contiguousRuns hsorted, mem_dedup, List.mem_insertionSort,
    List.mem_flatMap]
  simp only [mem_serverSeqsOf]

/-- Only what is planned is sent, and all of it where nothing fails. -/
theorem removeServerRanges_sent (runs : List (Nat × Nat)) (answers : List (Except Fault Unit)) :
    (removeServerRanges runs answers).1 <+: runs
    ∧ ((removeServerRanges runs answers).2 = some (.ok ()) →
      (removeServerRanges runs answers).1 = runs) := by
  induction runs generalizing answers with
  | nil => simp [removeServerRanges]
  | cons run runs ih =>
      obtain ⟨fromSeq, toSeq⟩ := run
      by_cases hto : toSeq = 0
      · simp [removeServerRanges, hto]
      · cases answers with
        | nil => simp [removeServerRanges, hto]
        | cons answer answers =>
            cases answer with
            | error e => simp [removeServerRanges, hto]
            | ok u =>
                obtain ⟨hbegins, hall⟩ := ih answers
                rw [removeServerRanges, if_neg hto]
                exact ⟨(List.prefix_cons_inj _).mpr hbegins, 
                  fun h => congrArg ((fromSeq, toSeq) :: ·) (hall h)⟩

/-! ## The calls -/

namespace Deletion

variable {packets : Nat → Option MessageContent} {key : DialogueKey} {st : LocalStore}
  {removed : List Message} {d : Deletion}

/-- A chunk of the message's own transfer is what was sent under the number. -/
def OwnChunk (packets : Nat → Option MessageContent) (m : Message) (s : Nat) : Prop :=
  ∃ file transferId index total filename mimeType totalSize data,
    attachmentRef m.content = some file ∧ file.transferId = some transferId
    ∧ packets s = some (.fileChunk transferId index total filename mimeType totalSize data)

/-- What is deleted are the messages `removed` and the chunks of their transfers; every other
message survives, locally and on the server, and so do the chunks of its transfer. -/
structure OwnOnly (packets : Nat → Option MessageContent) (key : DialogueKey) (st : LocalStore)
    (removed : List Message) (d : Deletion) : Prop where
  exact : ∀ s, Runs.Covers d.sent s ↔ ∃ m ∈ removed, At m s ∨ OwnChunk packets m s
  local_survives : ∀ x ∈ st.messages, x ∉ removed → x ∈ d.store.messages
  server_survives : ∀ x ∈ st.messages, x.dialogue = key → x ∉ removed →
    ∀ s, At x s ∨ OwnChunk packets x s → ¬ Runs.Covers d.sent s

/-- The bodies that the removed messages claim are those they have: nothing but chunks of theirs or
messages that go as well, and all of these chunks. And nothing of a kept message is among it. -/
structure Truthful (packets : Nat → Option MessageContent) (key : DialogueKey) (st : LocalStore)
    (removed : List Message) : Prop where
  claimed : ∀ m ∈ removed, ∀ s, Claims m s → ∃ m' ∈ removed, At m' s ∨ OwnChunk packets m' s
  whole : ∀ m ∈ removed, ∀ s, OwnChunk packets m s → ∃ m' ∈ removed, At m' s ∨ Claims m' s
  apart : ∀ x ∈ st.messages, x.dialogue = key → x ∉ removed →
    ∀ s, At x s ∨ OwnChunk packets x s → ∀ m ∈ removed, ¬ (At m s ∨ Claims m s)

/-- What a call that comes to its end has done. -/
structure Deletes (key : DialogueKey) (st : LocalStore) (removed : List Message) (d : Deletion) :
    Prop where
  sent : ∀ s, Runs.Covers d.sent s ↔ ∃ m ∈ removed, At m s ∨ Claims m s
  store : ∀ x, x ∈ d.store.messages
    ↔ x ∈ st.messages ∧ ¬ (x.dialogue = key ∧ ∃ m ∈ removed, ∃ s, At m s ∧ At x s)

theorem Deletes.nothing : Deletes key st [] ⟨st, [], some (.ok 0)⟩ :=
  ⟨fun s => by simp, fun x => by simp⟩

/-- **A deletion touches only its own exactly if the bodies are true.** -/
theorem Deletes.ownOnly_iff (h : Deletes key st removed d) :
    OwnOnly packets key st removed d ↔ Truthful packets key st removed := by
  constructor
  · intro hown
    refine ⟨fun m hm s hclaims => ?_, fun m hm s hchunk => ?_, fun x hx hd hkept s hs m hm hms => ?_⟩
    · exact (hown.exact s).mp ((h.sent s).mpr ⟨m, hm, .inr hclaims⟩)
    · exact (h.sent s).mp ((hown.exact s).mpr ⟨m, hm, .inr hchunk⟩)
    · exact hown.server_survives x hx hd hkept s hs ((h.sent s).mpr ⟨m, hm, hms⟩)
  · intro htrue
    refine ⟨fun s => ?_, fun x hx hkept => ?_, fun x hx hd hkept s hs hcovers => ?_⟩
    · rw [h.sent s]
      constructor
      · rintro ⟨m, hm, hat | hclaims⟩
        · exact ⟨m, hm, .inl hat⟩
        · exact htrue.claimed m hm s hclaims
      · rintro ⟨m, hm, hat | hchunk⟩
        · exact ⟨m, hm, .inl hat⟩
        · exact htrue.whole m hm s hchunk
    · refine (h.store x).mpr ⟨hx, ?_⟩
      rintro ⟨hd, m, hm, s, hms, hxs⟩
      exact htrue.apart x hx hd hkept s (.inl hxs) m hm (.inl hms)
    · obtain ⟨m, hm, hms⟩ := (h.sent s).mp hcovers
      exact htrue.apart x hx hd hkept s hs m hm hms

end Deletion

/-- The messages of a list that have a number: only they can be removed. -/
def numbered (msgs : List Message) : List Message := msgs.filter (fun m => m.serverSeq.isSome)

theorem mem_numbered {msgs : List Message} {m : Message} :
    m ∈ numbered msgs ↔ m ∈ msgs ∧ ∃ s, At m s := by
  unfold numbered At
  rw [List.mem_filter, Option.isSome_iff_exists]

namespace Client

open Deletion

variable {κ : Type} (c : Client κ) (st : LocalStore)

theorem deleteListed_spec {msgs : List Message} {answers : List (Except Fault Unit)} {n : Nat}
    (h : (c.deleteListed st msgs answers).outcome = some (.ok n)) :
    Deletes c.key st (numbered msgs) (c.deleteListed st msgs answers) := by
  obtain ⟨-, hall⟩ := removeServerRanges_sent (plannedRuns msgs) answers
  unfold deleteListed at h ⊢
  dsimp only at h ⊢
  cases houtcome : (removeServerRanges (plannedRuns msgs) answers).2 with
  | none =>
      rw [houtcome] at h
      cases h
  | some result =>
      cases result with
      | error e =>
          rw [houtcome] at h
          cases h
      | ok u =>
          dsimp only
          refine ⟨fun s => ?_, fun x => ?_⟩
          -- messages without a number plan nothing
          · rw [hall houtcome, covers_plannedRuns]
            refine exists_congr fun m => ?_
            rw [mem_numbered, and_assoc]
            refine and_congr_right fun _ => ⟨fun hm => ⟨?_, hm⟩, And.right⟩
            rcases hm with hat | ⟨seq, file, hseq, -⟩
            · exact ⟨s, hat⟩
            · exact ⟨seq, hseq⟩
          · rw [LocalStore.mem_deleteMessagesBySeqs]
            refine and_congr_right fun _ => not_congr (and_congr_right fun _ => ?_)
            constructor
            · rintro ⟨s, hs, hxs⟩
              obtain ⟨m, hm, hms⟩ := List.mem_filterMap.mp hs
              exact ⟨m, mem_numbered.mpr ⟨hm, s, hms⟩, s, hms, hxs⟩
            · rintro ⟨m, hm, s, hms, hxs⟩
              exact ⟨s, List.mem_filterMap.mpr ⟨m, (mem_numbered.mp hm).1, hms⟩, hxs⟩

/-- The messages `deleteTopic` removes. -/
def topicRemoved (topicName : String) : List Message :=
  numbered (st.listTopicMessages c.key (c.deriveTopicId c.key topicName))

/-- The messages `trimTopicKeepLast` removes. -/
def trimRemoved (topicName : String) (keep : Nat) : List Message :=
  (c.sendable st topicName).take ((c.sendable st topicName).length - keep)

theorem deleteTopic_spec {topicName : String} {answers : List (Except Fault Unit)} {n : Nat}
    (h : (c.deleteTopic st topicName answers).outcome = some (.ok n)) :
    Deletes c.key st (c.topicRemoved st topicName) (c.deleteTopic st topicName answers) := by
  unfold deleteTopic topicRemoved at *
  dsimp only at h ⊢
  split at h
  · rename_i hempty
    rw [if_pos hempty, List.isEmpty_iff.mp hempty]
    exact .nothing
  · rename_i hne
    rw [if_neg hne]
    exact c.deleteListed_spec st h

theorem trimTopicKeepLast_spec {topicName : String} {keep : Nat}
    {answers : List (Except Fault Unit)} {n : Nat}
    (h : (c.trimTopicKeepLast st topicName keep false answers).outcome = some (.ok n)) :
    Deletes c.key st (c.trimRemoved st topicName keep)
      (c.trimTopicKeepLast st topicName keep false answers) := by
  unfold trimTopicKeepLast trimRemoved at *
  dsimp only at h ⊢
  split at h
  · rename_i hle
    rw [if_pos hle, Nat.sub_eq_zero_of_le hle, List.take_zero]
    exact .nothing
  · rename_i hgt
    rw [if_neg Bool.false_ne_true] at h
    rw [if_neg hgt, if_neg Bool.false_ne_true]
    -- what is trimmed has a number
    have hall : numbered ((c.sendable st topicName).take ((c.sendable st topicName).length - keep))
        = (c.sendable st topicName).take ((c.sendable st topicName).length - keep) := by
      refine List.filter_eq_self.mpr fun m hm => ?_
      exact (List.mem_filter.mp (List.mem_of_mem_take hm)).2
    have hspec := c.deleteListed_spec st h
    rwa [hall] at hspec

/-- **What is deleted with a topic.** A deletion or a trimming of a topic that comes to its end
touches only its own messages and transfers exactly if the bodies that the removed messages claim are
those they have. A trimming for show touches nothing. -/
theorem deletion_ownOnly_iff (packets : Nat → Option MessageContent) (topicName : String)
    (keep : Nat) (answers : List (Except Fault Unit)) :
    (∀ n, (c.deleteTopic st topicName answers).outcome = some (.ok n) →
      (OwnOnly packets c.key st (c.topicRemoved st topicName) (c.deleteTopic st topicName answers)
        ↔ Truthful packets c.key st (c.topicRemoved st topicName)))
    ∧ (∀ n, (c.trimTopicKeepLast st topicName keep false answers).outcome = some (.ok n) →
      (OwnOnly packets c.key st (c.trimRemoved st topicName keep)
          (c.trimTopicKeepLast st topicName keep false answers)
        ↔ Truthful packets c.key st (c.trimRemoved st topicName keep)))
    ∧ (c.trimTopicKeepLast st topicName keep true answers).sent = []
    ∧ (c.trimTopicKeepLast st topicName keep true answers).store = st := by
  refine ⟨fun n h => (c.deleteTopic_spec st h).ownOnly_iff,
    fun n h => (c.trimTopicKeepLast_spec st h).ownOnly_iff, ?_, ?_⟩
  · unfold trimTopicKeepLast
    dsimp only
    split <;> rfl
  · unfold trimTopicKeepLast
    dsimp only
    split <;> rfl

/-- The store after packets have come in one after the other. -/
def received (packets : List (PacketInner × Nat)) : LocalStore :=
  packets.foldl (fun st p => (c.processIncoming 0 st p.1 p.2).1) .empty

/-- What came in under a number. -/
def contentAt (packets : List (PacketInner × Nat)) (s : Nat) : Option MessageContent :=
  (packets.find? (fun p => p.2 = s)).map (fun p => p.1.content)

section Example

/-- An empty file that claims a body up to number 3. -/
def boastful : FileAttachment where
  filename := "f"
  mimeType := "m"
  size := 0
  data := []
  transferId := none
  cachePath := none
  chunkCount := 0
  bodyFromSeq := 0
  bodyToSeq := 3
  downloaded := true
  groupId := none
  ephemeralFileId := none
  ephemeralExpiresAt := none
  ephemeralFileKey := none

/-- Bob sends it in a topic, and a text outside of it. -/
def boasting : List (PacketInner × Nat) :=
  [(⟨"a", 0, "bob", .file boastful, some "topic"⟩, 1), (⟨"b", 0, "bob", .text "hi", none⟩, 2)]

/-- The text goes with the topic. -/
theorem text_deleted :
    ¬ ∀ (c : Client Nat) (packets : List (PacketInner × Nat)) (topicName : String)
        (answers : List (Except Fault Unit)) (n : Nat),
      (c.deleteTopic (c.received packets) topicName answers).outcome = some (.ok n) →
      OwnOnly (contentAt packets) c.key (c.received packets)
        (c.topicRemoved (c.received packets) topicName)
        (c.deleteTopic (c.received packets) topicName answers) := by
  intro h
  have hown := h (Sample.client "alice") boasting "topic" [.ok ()] 1 (by decide +kernel)
  have hsent : Runs.Covers
      ((Sample.client "alice").deleteTopic ((Sample.client "alice").received boasting) "topic"
        [.ok ()]).sent 2 := by
    decide +kernel
  obtain ⟨m, hm, hat | hchunk⟩ := (hown.exact 2).mp hsent
  · have hall : ∀ m ∈ (Sample.client "alice").topicRemoved
        ((Sample.client "alice").received boasting) "topic", m.serverSeq ≠ some 2 := by
      decide +kernel
    exact hall m hm hat
  · obtain ⟨_, _, _, _, _, _, _, _, _, _, hpacket⟩ := hchunk
    cases hpacket

/-- A text in the topic, and one outside of it. -/
def texts : List (PacketInner × Nat) :=
  [(⟨"a", 0, "bob", .text "a", some "topic"⟩, 1), (⟨"b", 0, "bob", .text "b", none⟩, 2)]

theorem deletion_ownOnly_iff_texts :
    OwnOnly (contentAt texts) ⟨"alice", "bob"⟩ ((Sample.client "alice").received texts)
      ((Sample.client "alice").topicRemoved ((Sample.client "alice").received texts) "topic")
      ((Sample.client "alice").deleteTopic ((Sample.client "alice").received texts) "topic"
        [.ok ()]) := by
  have hremoved : ∀ m ∈ (Sample.client "alice").topicRemoved
      ((Sample.client "alice").received texts) "topic",
      attachmentRef m.content = none ∧ m.serverSeq = some 1 := by
    decide +kernel
  have hkept : ∀ m ∈ ((Sample.client "alice").received texts).messages.rows,
      attachmentRef m.content = none
      ∧ (m ∈ (Sample.client "alice").topicRemoved ((Sample.client "alice").received texts) "topic"
        ∨ m.serverSeq = some 2) := by
    decide +kernel
  have hclaims : ∀ {m : Message} {s : Nat}, attachmentRef m.content = none → ¬ Claims m s := by
    rintro m s hnone ⟨seq, file, -, hfile, -⟩
    rw [hnone] at hfile
    cases hfile
  have hchunk : ∀ {m : Message} {s : Nat}, attachmentRef m.content = none →
      ¬ OwnChunk (contentAt texts) m s := by
    rintro m s hnone ⟨file, _, _, _, _, _, _, _, hfile, _⟩
    rw [hnone] at hfile
    cases hfile
  refine ((deletion_ownOnly_iff (Sample.client "alice") ((Sample.client "alice").received texts)
    (contentAt texts) "topic" 0 [.ok ()]).1 1 (by decide +kernel)).mpr ⟨?_, ?_, ?_⟩
  · exact fun m hm s hm' => absurd hm' (hclaims (hremoved m hm).1)
  · exact fun m hm s hm' => absurd hm' (hchunk (hremoved m hm).1)
  · intro x hx _ hnot s hs m hm hms
    obtain ⟨hnone, hin | htwo⟩ := hkept x hx
    · exact hnot hin
    · have hx2 := hs.resolve_right (hchunk hnone)
      have hm1 := hms.resolve_right (hclaims (hremoved m hm).1)
      unfold At at hx2 hm1
      rw [htwo] at hx2
      rw [(hremoved m hm).2, ← hx2] at hm1
      cases hm1

end Example

end Client

end Paranoia
