import Mathlib.Algebra.BigOperators.Group.Finset.Basic
import Mathlib.Algebra.Order.BigOperators.Group.Finset
import Paranoia.Spec
import Paranoia.Client.Download

/-!
# What a hostile server can do to a download

The server answers the pulls with whatever it likes, but it cannot make a ciphertext: what opens
was sealed by one of the two participants. So every chunk that is taken is one of
the chunks of the transfer, at its own place up to the width of the index. A place is never taken
twice, no chunk is empty, and the sizes have to add up to the size of the file: then all
of them are there.

The two variants run one loop. On the disk it does to the temporary file what it does in memory to
the buffer.
-/

namespace Paranoia

/-! ## The file is its chunks -/

theorem flatten_randomChunks {data : List UInt8} {sizes : List Nat}
    (h : isChunking data.length sizes = true) : (randomChunks data sizes).flatten = data := by
  induction sizes generalizing data with
  | nil =>
      have : data.length = 0 := by simpa [isChunking] using h
      rw [randomChunks, List.flatten_nil, List.length_eq_zero_iff.mp this]
  | cons size sizes ih =>
      simp only [isChunking, Bool.and_eq_true] at h
      rw [randomChunks, List.flatten_cons, ih (by rw [List.length_drop]; exact h.2),
        List.take_append_drop]

theorem ne_nil_of_mem_randomChunks {data : List UInt8} {sizes : List Nat}
    (h : isChunking data.length sizes = true) :
    ∀ piece ∈ randomChunks data sizes, piece ≠ [] := by
  induction sizes generalizing data with
  | nil => simp [randomChunks]
  | cons size sizes ih =>
      simp only [isChunking, Bool.and_eq_true, decide_eq_true_eq] at h
      obtain ⟨⟨hpos, hsize⟩, hrest⟩ := h
      intro piece hpiece
      rcases List.mem_cons.mp hpiece with rfl | hpiece
      · have : 0 < size := by
          unfold chunkSizeMin at hsize
          split at hsize
          · have := of_decide_eq_true hsize
            omega
          · have := (Bool.and_eq_true _ _ ▸ hsize).1
            have := of_decide_eq_true this
            omega
        rw [← List.length_pos_iff, List.length_take]
        omega
      · exact ih (by rw [List.length_drop]; exact hrest) piece hpiece

theorem length_randomChunks (data : List UInt8) (sizes : List Nat) :
    (randomChunks data sizes).length = sizes.length := by
  induction sizes generalizing data with
  | nil => rfl
  | cons size sizes ih => rw [randomChunks, List.length_cons, ih, List.length_cons]

/-! ## Uploads from a path -/

theorem getElem?_randomChunks {file data : List UInt8} {sizes : List Nat} {i : Nat}
    (h : chunkData file sizes i = some data) : (randomChunks file sizes)[i]? = some data := by
  induction sizes generalizing file i with
  | nil => cases h
  | cons size sizes ih =>
      cases i with
      | zero =>
          unfold chunkData at h
          simp only [List.getElem?_cons_zero, Option.bind_some, List.take_zero, List.sum_nil,
            List.drop_zero] at h
          split at h
          · rwa [randomChunks, List.getElem?_cons_zero]
          · cases h
      | succ i =>
          rw [randomChunks, List.getElem?_cons_succ]
          refine ih ?_
          unfold chunkData at h ⊢
          simp only [List.getElem?_cons_succ, List.take_succ_cons, List.sum_cons] at h
          rwa [List.drop_drop]

/-- The journal entry of an upload as a transfer of the file it names. -/
def OutboundTransfer.ofFile (t : OutboundTransfer) (file : List UInt8)
    (hcut : isChunking file.length t.chunkSizes = true) : FileTransfer where
  transferId := t.transferId
  kind := t.kind
  filename := t.filename
  mimeType := t.mimeType
  data := file
  groupId := t.groupId
  timestamp := t.timestamp
  activeTopic := t.topicName
  chunkSizes := t.chunkSizes
  cut := hcut

/-- What an upload from a path or its resumption pushes is what `send_chunked` pushes of the file. -/
theorem OutboundTransfer.packet_mem_sendChunked {κ : Type} {c : Client κ} {t : OutboundTransfer}
    {file : List UInt8} {inner : PacketInner} {i : Nat} (hread : c.readFile t.cachePath = some file)
    (hcut : isChunking file.length t.chunkSizes = true) (hsize : t.totalSize = file.length)
    (hfew : t.chunkSizes.length < 2 ^ 32) (h : t.packet c i = some inner) :
    inner ∈ ((t.ofFile file hcut).sendChunked c.username t.headerSeq).map Prod.snd := by
  have htotal : (t.ofFile file hcut).total = t.chunkSizes.length := by
    rw [FileTransfer.total, FileTransfer.chunks, length_randomChunks]
    exact Nat.mod_eq_of_lt hfew
  cases i with
  | zero =>
      cases h
      refine List.mem_map.mpr ⟨_, List.mem_cons_self, ?_⟩
      simp only [FileTransfer.header, htotal, hsize]
      rfl
  | succ i =>
      rw [OutboundTransfer.packet, hread, Option.bind_some] at h
      obtain ⟨data, hdata, rfl⟩ := Option.map_eq_some_iff.mp h
      have hget := getElem?_randomChunks hdata
      have hlt : i < t.chunkSizes.length := by
        rw [← length_randomChunks file]
        exact (List.getElem?_eq_some_iff.mp hget).1
      refine List.mem_map.mpr ⟨_, List.mem_cons_of_mem _ (List.mem_map.mpr
        ⟨(data, i), List.mem_zipIdx_iff_getElem?.mpr hget, rfl⟩), ?_⟩
      simp only [FileTransfer.chunk, htotal, hsize, Nat.mod_eq_of_lt (Nat.lt_trans hlt hfew)]
      rfl

/-! ## Picking all of a row -/

/-- Distinct places whose positive weights add up to that of the whole row are all its places. -/
theorem length_of_sum_eq {ps : List Nat} {n : Nat} {weight : Nat → Nat} (hnodup : ps.Nodup)
    (hlt : ∀ p ∈ ps, p < n) (hpos : ∀ p < n, 0 < weight p)
    (hsum : (ps.map weight).sum = ((List.range n).map weight).sum) : ps.length = n := by
  have hsub : ps.toFinset ⊆ Finset.range n := by
    intro p hp
    exact Finset.mem_range.mpr (hlt p (List.mem_toFinset.mp hp))
  have htotal : ∑ p ∈ ps.toFinset, weight p = ∑ p ∈ Finset.range n, weight p := by
    rw [List.sum_toFinset _ hnodup, hsum]
    rfl
  have hall : ps.toFinset = Finset.range n := by
    by_contra hne
    obtain ⟨p, hp, hnot⟩ := Finset.exists_of_ssubset (hsub.ssubset_of_ne hne)
    have := Finset.sum_lt_sum_of_subset hsub hp hnot (hpos p (Finset.mem_range.mp hp))
      (fun _ _ _ => Nat.zero_le _)
    omega
  rw [← List.toFinset_card_of_nodup hnodup, hall, Finset.card_range]

/-- A row that holds at each place a number that reads as the place, and as many as there are, counts
up. -/
theorem eq_range_of_mod {ps : List Nat} {n width : Nat} (hlen : ps.length = n)
    (hps : ∀ j p, ps[j]? = some p → p < n ∧ p % width = j) (hwidth : 0 < width) :
    ps = List.range n := by
  refine List.ext_getElem? fun j => ?_
  by_cases hj : j < n
  · have hget : ps[j]? = some ps[j] := List.getElem?_eq_getElem (hlen ▸ hj)
    obtain ⟨hlt, hmod⟩ := hps j _ hget
    -- the last place still reads as itself, so no place is beyond the width
    have hbound : n - 1 < ps.length := by omega
    have hlast : ps[n - 1]? = some ps[n - 1] := List.getElem?_eq_getElem hbound
    have hn : n - 1 < width := (hps _ _ hlast).2 ▸ Nat.mod_lt _ hwidth
    rw [Nat.mod_eq_of_lt (by omega)] at hmod
    rw [hget, hmod, List.getElem?_range hj]
  · rw [List.getElem?_eq_none (by omega), List.getElem?_eq_none (by rw [List.length_range]; omega)]

/-! ## The participants -/

def IsFilePacket : MessageContent → Prop
  | .fileHeader .. => True
  | .fileChunk .. => True
  | _ => False

/-- What is sealed under the keys of the dialogue is what its participants send, and the packets of
files are those of their transfers, no two under one id. -/
structure Honest (sealed : List PacketInner) (transfers : List FileTransfer) : Prop where
  distinct : ∀ t ∈ transfers, ∀ u ∈ transfers, t.transferId = u.transferId → t = u
  files : ∀ inner ∈ sealed, IsFilePacket inner.content →
    ∃ t ∈ transfers, ∃ username headerSeq, inner ∈ (t.sendChunked username headerSeq).map Prod.snd

/-- Of the payloads in the answers, those that open were sealed by a participant. -/
def Unforged {κ π : Type} [Aead κ π] (c : Client κ) (sealed : List PacketInner)
    (answers : List (PullAnswer π)) : Prop :=
  ∀ packets, Except.ok packets ∈ answers → ∀ pkt ∈ packets,
    (c.decryptPacket pkt.seq pkt.payload).isSome →
    ∃ key nonce, ∃ inner ∈ sealed, pkt.payload = Aead.encrypt key nonce inner

/-- The header of the file was sealed by a participant. -/
def RemoteFile.Announced (f : RemoteFile) (sealed : List PacketInner) : Prop :=
  ∃ inner ∈ sealed, ∃ kind filename mimeType groupId, inner.content =
    .fileHeader f.transferId kind filename mimeType f.totalSize f.chunkCount groupId

namespace Honest

variable {sealed : List PacketInner} {transfers : List FileTransfer} {t : FileTransfer}

/-- A chunk under the id of a transfer is one of its chunks. -/
theorem chunk_of (h : Honest sealed transfers) (ht : t ∈ transfers) {inner : PacketInner}
    (hinner : inner ∈ sealed) {index total totalSize : Nat} {filename mimeType : String}
    {data : List UInt8} (hcontent : inner.content =
      .fileChunk t.transferId index total filename mimeType totalSize data) :
    ∃ p, t.chunks[p]? = some data ∧ p % 2 ^ 32 = index := by
  obtain ⟨u, hu, username, headerSeq, hmem⟩ := h.files inner hinner (by rw [hcontent]; trivial)
  obtain ⟨⟨seq, inner'⟩, hsent, rfl⟩ := List.mem_map.mp hmem
  dsimp only at hcontent
  rcases List.mem_cons.mp hsent with heq | hsent
  · cases heq
    cases hcontent
  · obtain ⟨⟨piece, p⟩, hpiece, heq⟩ := List.mem_map.mp hsent
    cases heq
    simp only [FileTransfer.chunk, MessageContent.fileChunk.injEq] at hcontent
    obtain ⟨hid, hindex, -, -, -, -, rfl⟩ := hcontent
    cases h.distinct u hu t ht hid
    exact ⟨p, List.mem_zipIdx_iff_getElem?.mp hpiece, hindex⟩

/-- A header under the id of a transfer announces its size. -/
theorem size_of (h : Honest sealed transfers) (ht : t ∈ transfers) {f : RemoteFile}
    (hf : f.Announced sealed) (hid : t.transferId = f.transferId) :
    f.totalSize = t.data.length := by
  obtain ⟨inner, hinner, kind, filename, mimeType, groupId, hcontent⟩ := hf
  obtain ⟨u, hu, username, headerSeq, hmem⟩ := h.files inner hinner (by rw [hcontent]; trivial)
  obtain ⟨⟨seq, inner'⟩, hsent, rfl⟩ := List.mem_map.mp hmem
  dsimp only at hcontent
  rcases List.mem_cons.mp hsent with heq | hsent
  · cases heq
    simp only [FileTransfer.header, MessageContent.fileHeader.injEq] at hcontent
    cases h.distinct u hu t ht (hcontent.1.trans hid.symm)
    exact hcontent.2.2.2.2.1.symm
  · obtain ⟨⟨piece, p⟩, -, heq⟩ := List.mem_map.mp hsent
    cases heq
    cases hcontent

end Honest

/-! ## The loop -/

namespace RemoteFile

variable {κ π σ τ : Type} [Aead κ π] {c : Client κ} {f : RemoteFile}

/-- What a taken packet was, and what it did. -/
theorem takePacket_eq_ok {append : σ → List UInt8 → σ} {st st' : Progress σ} {pkt : RawPacket π}
    (h : f.takePacket c append st pkt = .ok st') :
    ∃ inner filename mimeType data, c.decryptPacket pkt.seq pkt.payload = some inner
      ∧ inner.content = .fileChunk f.transferId st.expectedIndex f.chunkCount filename mimeType
          f.totalSize data
      ∧ st'.expectedIndex = st.expectedIndex + 1 ∧ st'.written = st.written + data.length
      ∧ st'.out = append st.out data := by
  unfold takePacket at h
  split at h
  · cases h
  · rename_i inner hinner
    split at h
    · rename_i transferId index total filename mimeType totalSize data hcontent
      split at h
      · rename_i hmatch
        obtain ⟨rfl, rfl, rfl, rfl⟩ := hmatch
        split at h
        · cases h
        · rename_i written hwritten
          cases h
          exact ⟨inner, filename, mimeType, data, hinner, hcontent, rfl,
            (checkedAdd_eq_some.mp hwritten).1.symm, rfl⟩
      · cases h
    · cases h

/-- What every packet that opens preserves, the loop preserves. -/
theorem pullChunks_invariant {append : σ → List UInt8 → σ} {P : Progress σ → Prop}
    {Q : RawPacket π → Prop} (hasked : ∀ st pulls, P st → P { st with pulls := pulls })
    (hstep : ∀ st pkt st', Q pkt → P st → f.takePacket c append st pkt = .ok st' → P st')
    {answers : List (PullAnswer π)}
    (hanswers : ∀ packets, Except.ok packets ∈ answers → ∀ pkt ∈ packets, Q pkt)
    {st st' : Progress σ} (hst : P st)
    (h : f.pullChunks c append answers st = some (.ok st')) : P st' := by
  have hfold : ∀ (packets : List (RawPacket π)) (st st' : Progress σ),
      (∀ pkt ∈ packets, Q pkt) → P st →
      packets.foldlM (f.takePacket c append) st = .ok st' → P st' := by
    intro packets
    induction packets with
    | nil =>
        intro st st' _ hst h
        cases h
        exact hst
    | cons pkt packets ih =>
        intro st st' hq hst h
        rw [List.foldlM_cons] at h
        cases hpkt : f.takePacket c append st pkt with
        | error e =>
            rw [hpkt] at h
            cases h
        | ok mid =>
            rw [hpkt] at h
            exact ih mid st' (fun q hq' => hq q (List.mem_cons_of_mem _ hq'))
              (hstep st pkt mid (hq pkt List.mem_cons_self) hst hpkt) h
  -- the loop ends when no chunk is missing, fails, or takes one more answer
  induction answers generalizing st with
  | nil =>
      rw [pullChunks] at h
      split at h
      · cases h
        exact hst
      · split at h <;> cases h
  | cons answer answers ih =>
      rw [pullChunks] at h
      split at h
      · cases h
        exact hst
      · split at h
        · cases h
        · cases answer with
          | error e => cases h
          | ok packets =>
              dsimp only at h
              split at h
              · cases h
              · rename_i mid hmid
                unfold takeBatch at hmid
                split at hmid
                · refine ih (fun ps hps => hanswers ps (List.mem_cons_of_mem _ hps)) ?_ h
                  refine hfold _ _ _ (fun pkt hpkt => ?_) (hasked st _ hst) hmid
                  exact hanswers packets List.mem_cons_self pkt
                    ((List.mem_insertionSort _).mp hpkt)
                · cases hmid

/-! ## What is gathered -/

/-- The bytes so far are chunks of the transfer, each at a place that reads as its own. -/
def Picked (t : FileTransfer) (st : Progress (List UInt8)) : Prop :=
  ∃ ps : List Nat, ps.length = st.expectedIndex
    ∧ (∀ j p, ps[j]? = some p → p < t.chunks.length ∧ p % 2 ^ 32 = j)
    ∧ st.out = (ps.map (fun p => t.chunks[p]?.getD [])).flatten
    ∧ st.written = st.out.length

theorem Picked.take {sealed : List PacketInner} {transfers : List FileTransfer}
    {t : FileTransfer} (hhonest : Honest sealed transfers) (ht : t ∈ transfers)
    (hid : t.transferId = f.transferId) {st st' : Progress (List UInt8)} {pkt : RawPacket π}
    (hsealed : (c.decryptPacket pkt.seq pkt.payload).isSome →
      ∃ key nonce, ∃ inner ∈ sealed, pkt.payload = Aead.encrypt key nonce inner)
    (hst : Picked t st) (h : f.takePacket c (· ++ ·) st pkt = .ok st') : Picked t st' := by
  obtain ⟨inner, filename, mimeType, data, hinner, hcontent, hindex, hwritten, hout⟩ :=
    takePacket_eq_ok h
  -- what opens was sealed, and opens to what was sealed
  have hmem : inner ∈ sealed := by
    obtain ⟨key, nonce, inner', hinner', hpayload⟩ := hsealed (by rw [hinner]; rfl)
    obtain ⟨key', -, hopen⟩ := Option.bind_eq_some_iff.mp hinner
    rw [hpayload] at hopen
    exact Aead.decrypt_sound _ _ _ _ _ hopen ▸ hinner'
  obtain ⟨p, hp, hmod⟩ := hhonest.chunk_of ht hmem (hid ▸ hcontent)
  obtain ⟨ps, hlen, hps, hbytes, hcount⟩ := hst
  refine ⟨ps ++ [p], by rw [List.length_append, hlen, hindex]; rfl, fun j q hq => ?_, ?_, ?_⟩
  · rcases Nat.lt_or_ge j ps.length with hj | hj
    · rw [List.getElem?_append_left hj] at hq
      exact hps j q hq
    · rw [List.getElem?_append_right hj] at hq
      have hzero : j - ps.length < 1 := (List.getElem?_eq_some_iff.mp hq).1
      obtain rfl : j = ps.length := by omega
      rw [Nat.sub_self] at hq
      cases hq
      exact ⟨(List.getElem?_eq_some_iff.mp hp).1, hmod.trans hlen.symm⟩
  · rw [hout, hbytes, List.map_append, List.flatten_append, List.map_singleton,
      List.flatten_singleton, hp, Option.getD_some]
  · rw [hwritten, hcount, hout, List.length_append]

/-- Chunks that add up to the size of the file are the file. -/
theorem Picked.out_eq {t : FileTransfer} {st : Progress (List UInt8)} (h : Picked t st)
    (hsize : st.written = t.data.length) : st.out = t.data := by
  obtain ⟨ps, hlen, hps, hbytes, hcount⟩ := h
  have hdata : ((List.range t.chunks.length).map (fun p => t.chunks[p]?.getD [])).flatten
      = t.data := by
    have : (List.range t.chunks.length).map (fun p => t.chunks[p]?.getD []) = t.chunks := by
      refine List.ext_getElem (by simp) (fun i h₁ h₂ => ?_)
      rw [List.getElem_map, List.getElem_range, List.getElem?_eq_getElem h₂, Option.getD_some]
    rw [this, FileTransfer.chunks, flatten_randomChunks t.cut]
  -- two equal places would read as two indices
  have hnodup : ps.Nodup := by
    rw [List.nodup_iff_getElem?_ne_getElem?]
    intro i j hij hj heq
    have hget : ps[j]? = some ps[j] := List.getElem?_eq_getElem hj
    have hi := (hps i _ (heq.trans hget)).2
    have hj := (hps j _ hget).2
    omega
  have hlt : ∀ p ∈ ps, p < t.chunks.length := by
    intro p hp
    obtain ⟨j, hj⟩ := List.mem_iff_getElem?.mp hp
    exact (hps j p hj).1
  have hpos : ∀ p < t.chunks.length, 0 < (t.chunks[p]?.getD []).length := by
    intro p hp
    rw [List.getElem?_eq_getElem hp, Option.getD_some, List.length_pos_iff]
    exact ne_nil_of_mem_randomChunks t.cut _ (List.getElem_mem hp)
  -- the check of the sizes says that the weights add up
  have hsum : (ps.map (fun p => (t.chunks[p]?.getD []).length)).sum
      = ((List.range t.chunks.length).map (fun p => (t.chunks[p]?.getD []).length)).sum := by
    have hps_sum : st.out.length = (ps.map (fun p => (t.chunks[p]?.getD []).length)).sum := by
      rw [hbytes, List.length_flatten, List.map_map]
      rfl
    have hall_sum := congrArg List.length hdata
    rw [List.length_flatten, List.map_map] at hall_sum
    rw [← hps_sum, ← hcount, hsize, ← hall_sum]
    rfl
  have hrange := eq_range_of_mod (length_of_sum_eq hnodup hlt hpos hsum) hps (by decide)
  rw [hbytes, hrange, hdata]

/-- What is gathered of the answers of a server that cannot make a ciphertext is the file. -/
theorem collected_eq {sealed : List PacketInner} {transfers : List FileTransfer}
    {answers : List (PullAnswer π)} {t : FileTransfer} {bytes : List UInt8}
    (hhonest : Honest sealed transfers) (hf : f.Announced sealed)
    (hunforged : Unforged c sealed answers) (ht : t ∈ transfers)
    (hid : t.transferId = f.transferId)
    (h : f.collectRemoteAttachmentChunks c answers = some (.ok bytes)) : bytes = t.data := by
  obtain ⟨result, hresult, hbytes⟩ := Option.map_eq_some_iff.mp h
  cases result with
  | error e => cases hbytes
  | ok st =>
      dsimp only at hbytes
      split at hbytes
      · rename_i hsize
        cases hbytes
        have hpicked : Picked t st :=
          pullChunks_invariant (fun _ _ hst => hst)
            (fun _ _ _ hq hst hstep => hst.take hhonest ht hid hq hstep) hunforged
            ⟨[], rfl, by simp, rfl, rfl⟩ hresult
        exact hpicked.out_eq (hsize.trans (hhonest.size_of ht hf hid))
      · cases hbytes

end RemoteFile

/-! ## The two variants -/

/-- The same download with another output. -/
def Progress.map {σ τ : Type} (g : σ → τ) (st : Progress σ) : Progress τ :=
  { expectedIndex := st.expectedIndex
    afterSeq := st.afterSeq
    written := st.written
    out := g st.out
    pulls := st.pulls }

namespace RemoteFile

variable {κ π σ τ : Type} [Aead κ π] {c : Client κ} {f : RemoteFile}
  {append : σ → List UInt8 → σ} {append' : τ → List UInt8 → τ} {g : σ → τ}

theorem takePacket_map (hg : ∀ out data, g (append out data) = append' (g out) data)
    (st : Progress σ) (pkt : RawPacket π) :
    f.takePacket c append' (st.map g) pkt
      = (f.takePacket c append st pkt).map (Progress.map g) := by
  simp only [takePacket]
  cases c.decryptPacket pkt.seq pkt.payload with
  | none => rfl
  | some inner =>
      dsimp only
      split
      · rename_i transferId index total _ _ totalSize data _
        by_cases hmatch : transferId = f.transferId ∧ total = f.chunkCount
            ∧ index = (st.map g).expectedIndex ∧ totalSize = f.totalSize
        · rw [if_pos hmatch]
          simp only [Progress.map] at hmatch ⊢
          rw [if_pos hmatch]
          cases checkedAdd st.written data.length with
          | none => rfl
          | some written => simp only [Except.map, Progress.map, hg]
        · rw [if_neg hmatch]
          simp only [Progress.map] at hmatch ⊢
          rw [if_neg hmatch]
          rfl
      · rfl

theorem takeBatch_map (hg : ∀ out data, g (append out data) = append' (g out) data)
    (fin : Nat) (st : Progress σ) (packets : List (RawPacket π)) :
    f.takeBatch c append' fin (st.map g) packets
      = (f.takeBatch c append fin st packets).map (Progress.map g) := by
  have hfold : ∀ (packets : List (RawPacket π)) (st : Progress σ),
      packets.foldlM (f.takePacket c append') (st.map g)
        = (packets.foldlM (f.takePacket c append) st).map (Progress.map g) := by
    intro packets
    induction packets with
    | nil => exact fun _ => rfl
    | cons pkt packets ih =>
        intro st
        rw [List.foldlM_cons, List.foldlM_cons, takePacket_map hg]
        cases f.takePacket c append st pkt with
        | error e => rfl
        | ok mid => exact ih mid
  unfold takeBatch
  by_cases hlen : packets.length = fin - st.expectedIndex
  · rw [if_pos hlen, if_pos (show packets.length = fin - (st.map g).expectedIndex from hlen), hfold]
  · rw [if_neg hlen, if_neg (show packets.length ≠ fin - (st.map g).expectedIndex from hlen)]
    rfl

/-- The loop does the same to two outputs of which one follows the other chunk by chunk. -/
theorem pullChunks_map (hg : ∀ out data, g (append out data) = append' (g out) data)
    (answers : List (PullAnswer π)) (st : Progress σ) :
    f.pullChunks c append' answers (st.map g)
      = (f.pullChunks c append answers st).map (Except.map (Progress.map g)) := by
  induction answers generalizing st with
  | nil =>
      rw [pullChunks, pullChunks]
      by_cases hdone : f.chunkCount ≤ st.expectedIndex
      · rw [if_pos hdone, if_pos (show f.chunkCount ≤ (st.map g).expectedIndex from hdone)]
        rfl
      · rw [if_neg hdone, if_neg (show ¬ f.chunkCount ≤ (st.map g).expectedIndex from hdone)]
        rw [show f.batchEnd (st.map g) = f.batchEnd st from rfl]
        cases checkedAdd f.headerSeq (f.batchEnd st) <;> rfl
  | cons answer answers ih =>
      rw [pullChunks, pullChunks]
      by_cases hdone : f.chunkCount ≤ st.expectedIndex
      · rw [if_pos hdone, if_pos (show f.chunkCount ≤ (st.map g).expectedIndex from hdone)]
        rfl
      · rw [if_neg hdone, if_neg (show ¬ f.chunkCount ≤ (st.map g).expectedIndex from hdone),
          show f.batchEnd (st.map g) = f.batchEnd st from rfl]
        cases checkedAdd f.headerSeq (f.batchEnd st) with
        | none => rfl
        | some toSeq =>
            cases answer with
            | error e => rfl
            | ok packets =>
                have hbatch := takeBatch_map (c := c) (f := f) hg (f.batchEnd st)
                  { st with pulls := st.pulls ++ [(st.afterSeq, toSeq)] } packets
                dsimp only
                rw [show ({ st.map g with
                    pulls := (st.map g).pulls ++ [((st.map g).afterSeq, toSeq)] } : Progress τ)
                  = Progress.map g { st with pulls := st.pulls ++ [(st.afterSeq, toSeq)] } from rfl,
                  hbatch]
                cases f.takeBatch c append (f.batchEnd st)
                    { st with pulls := st.pulls ++ [(st.afterSeq, toSeq)] } packets with
                | error e => rfl
                | ok mid => exact ih mid

end RemoteFile

/-- A temporary file is not the file it is for. -/
theorem OutputPath.temporaryOutputPath_ne (path : OutputPath) (uuid : String) :
    path ≠ path.temporaryOutputPath uuid := by
  intro h
  have hname := congrArg (fun p : OutputPath => p.fileName.length) h
  simp only [OutputPath.temporaryOutputPath, String.length_append] at hname
  have : (".".length) = 1 := rfl
  omega

namespace RemoteFile

variable {κ π : Type} [Aead κ π]

/-- What the download onto the disk does is told by what the one into memory returns: the target
holds the bytes or is left alone, nothing else changes, and the temporary file is gone. -/
theorem write_eq_collect (c : Client κ) (f : RemoteFile) (files : Files) (path : OutputPath)
    (uuid : String) (answers : List (PullAnswer π)) :
    f.writeRemoteAttachmentChunks c files path uuid answers
      = (f.collectRemoteAttachmentChunks c answers).map (fun result =>
          match result with
          | .error e => (files.removeFile (path.temporaryOutputPath uuid), .error e)
          | .ok bytes =>
              (Function.update (files.removeFile (path.temporaryOutputPath uuid)) path (some bytes),
                .ok ())) := by
  have hne := path.temporaryOutputPath_ne uuid
  unfold writeRemoteAttachmentChunks collectRemoteAttachmentChunks
  dsimp only
  generalize path.temporaryOutputPath uuid = temp at *
  -- the temporary file holds what the buffer would hold
  have hbegin : f.begin (files.create temp)
      = (f.begin []).map (fun bytes => Function.update files temp (some bytes)) := rfl
  have happend : ∀ bytes data : List UInt8,
      Function.update files temp (some (bytes ++ data))
        = Files.writeAll temp (Function.update files temp (some bytes)) data := by
    intro bytes data
    rw [Files.writeAll, Function.update_self, Function.update_idem]
    rfl
  rw [hbegin, pullChunks_map happend, Option.map_map, Option.map_map]
  refine congrArg (fun g => Option.map g _) (funext fun result => ?_)
  cases result with
  | error e => rfl
  | ok st =>
      simp only [Function.comp_apply, Except.map, Progress.map]
      by_cases hsize : st.written = f.totalSize
      · rw [if_pos hsize, if_pos hsize]
        dsimp only
        rw [Files.replaceFile, Files.removeFile, Files.removeFile, Function.update_self,
          Function.update_comm hne, Function.update_idem]
      · rw [if_neg hsize, if_neg hsize]
        dsimp only
        rw [Files.removeFile, Files.removeFile, Function.update_idem]

/-- **A download is the file that was sent.** Whatever a server answers that cannot make a
ciphertext, a download for a header that succeeds gives the file its sender cut up under that
transfer; and on the same answers the two variants give the same bytes or both none. -/
theorem download_intact {c : Client κ} {f : RemoteFile} {sealed : List PacketInner}
    {transfers : List FileTransfer} {answers : List (PullAnswer π)}
    (hhonest : Honest sealed transfers) (hf : f.Announced sealed)
    (hunforged : Unforged c sealed answers) :
    (∀ bytes, f.collectRemoteAttachmentChunks c answers = some (.ok bytes) →
      ∀ t ∈ transfers, t.transferId = f.transferId → bytes = t.data)
    ∧ (∀ files path uuid files',
      f.writeRemoteAttachmentChunks c files path uuid answers = some (files', .ok ()) →
      ∀ t ∈ transfers, t.transferId = f.transferId → files' path = some t.data)
    ∧ (∀ files path uuid bytes, f.collectRemoteAttachmentChunks c answers = some (.ok bytes)
      ↔ ∃ files', f.writeRemoteAttachmentChunks c files path uuid answers = some (files', .ok ())
        ∧ files' path = some bytes) := by
  have hagree : ∀ files path uuid files',
      f.writeRemoteAttachmentChunks c files path uuid answers = some (files', .ok ()) →
      ∃ bytes, f.collectRemoteAttachmentChunks c answers = some (.ok bytes)
        ∧ files' path = some bytes := by
    intro files path uuid files' h
    rw [write_eq_collect] at h
    obtain ⟨result, hresult, heq⟩ := Option.map_eq_some_iff.mp h
    cases result with
    | error e => cases heq
    | ok bytes =>
        cases heq
        exact ⟨bytes, hresult, Function.update_self ..⟩
  refine ⟨fun bytes h t ht hid => collected_eq hhonest hf hunforged ht hid h,
    fun files path uuid files' h t ht hid => ?_, fun files path uuid bytes => ⟨fun h => ?_, ?_⟩⟩
  · obtain ⟨bytes, hbytes, hfile⟩ := hagree files path uuid files' h
    rw [hfile, collected_eq hhonest hf hunforged ht hid hbytes]
  · exact ⟨_, by rw [write_eq_collect, h]; rfl, Function.update_self ..⟩
  · rintro ⟨files', h, hfile⟩
    obtain ⟨bytes', hbytes, hfile'⟩ := hagree files path uuid files' h
    rw [hbytes, Option.some.inj (hfile'.symm.trans hfile)]

end RemoteFile

/-- Three bytes from alice to bob. -/
def threeBytes : FileTransfer where
  transferId := "t"
  kind := .file
  filename := "f"
  mimeType := "m"
  data := [1, 2, 3]
  groupId := none
  timestamp := 0
  activeTopic := none
  chunkSizes := [3]
  cut := by decide

namespace RemoteFile

def ofThreeBytes : RemoteFile := ⟨4, "t", 1, 3⟩

/-- The chunk under the key of the dialogue, at a number of the server's choice. -/
def relabelled : List (PullAnswer Sealed) :=
  [.ok [⟨9, ⟨7, 0, threeBytes.chunk "alice" 0 [1, 2, 3]⟩⟩]]

def ofAlice : List PacketInner :=
  [threeBytes.header "alice", threeBytes.chunk "alice" 0 [1, 2, 3]]

theorem honest_ofAlice : Honest ofAlice [threeBytes] where
  distinct _ ht _ hu _ := (List.mem_singleton.mp ht).trans (List.mem_singleton.mp hu).symm
  files _ hinner _ := ⟨threeBytes, List.mem_cons_self, "alice", 4, hinner⟩

theorem download_intact_relabelled :
    ofThreeBytes.collectRemoteAttachmentChunks (Sample.client "bob") relabelled
      = some (.ok [1, 2, 3])
    ∧ ∃ files', ofThreeBytes.writeRemoteAttachmentChunks (Sample.client "bob") (fun _ => none)
        ⟨"d", "f"⟩ "u" relabelled = some (files', .ok ()) ∧ files' ⟨"d", "f"⟩ = some [1, 2, 3] := by
  have hcollect : ofThreeBytes.collectRemoteAttachmentChunks (Sample.client "bob") relabelled
      = some (.ok [1, 2, 3]) := by
    decide +kernel
  have hunforged : Unforged (Sample.client "bob") ofAlice relabelled := by
    intro packets hpackets pkt hpkt _
    cases List.mem_singleton.mp hpackets
    cases List.mem_singleton.mp hpkt
    exact ⟨7, 0, _, List.mem_cons_of_mem _ List.mem_cons_self, rfl⟩
  have hannounced : ofThreeBytes.Announced ofAlice :=
    ⟨threeBytes.header "alice", List.mem_cons_self, _, _, _, _, rfl⟩
  have hintact := download_intact honest_ofAlice hannounced hunforged
  exact ⟨hcollect, (hintact.2.2 _ _ _ _).mp hcollect⟩

end RemoteFile

end Paranoia
