import Paranoia.Lib.OrdMap
import Paranoia.Lib.Runs
import Paranoia.Types

/-!
# The packet store of the server

Packets are kept in RocksDB under `dialogue_id:seq`, the sequence number padded so
that the store's key order is the numeric one: for each dialogue an ordered map
from sequence numbers to payloads. Payloads are ciphertext and the store never
looks inside them.
-/

namespace Paranoia

/-- Greatest number of runs in one answer to a map request. -/
def mapMaxRuns : Nat := 8192

/-- The packets of every dialogue. -/
structure PacketStore (π : Type) where
  db : DialogueKey → OrdMap Nat π

structure MapResult where
  runs : List (Nat × Nat)
  lastSeq : Nat
  truncated : Bool
deriving DecidableEq

namespace PacketStore

variable {π : Type}

def empty : PacketStore π := ⟨fun _ => OrdMap.empty⟩

/-- The live sequence numbers of a dialogue, ascending. -/
def live (ps : PacketStore π) (dialogue : DialogueKey) : List Nat := (ps.db dialogue).keys

def get (ps : PacketStore π) (dialogue : DialogueKey) (seq : Nat) : Option π :=
  (ps.db dialogue).get? seq

/-- The live packets of a dialogue, ascending. -/
def packets (ps : PacketStore π) (dialogue : DialogueKey) : List (RawPacket π) :=
  (ps.db dialogue).entries.map (fun e => ⟨e.1, e.2⟩)

/-- Replace the packets of one dialogue. -/
def withDb (ps : PacketStore π) (dialogue : DialogueKey) (m : OrdMap Nat π) : PacketStore π :=
  ⟨fun k => if k = dialogue then m else ps.db k⟩

def put (ps : PacketStore π) (dialogue : DialogueKey) (seq : Nat) (data : π) : PacketStore π :=
  ps.withDb dialogue ((ps.db dialogue).put seq data)

/-- Store a packet, unless its sequence number is taken. -/
def push (ps : PacketStore π) (dialogue : DialogueKey) (seq : Nat) (data : π) :
    Except String (PacketStore π) :=
  match ps.get dialogue seq with
  | some _ => .error ("Duplicate seq " ++ toString seq)
  | none => .ok (ps.put dialogue seq data)

/-- The packets in `(afterSeq, toSeq]`. -/
def pull (ps : PacketStore π) (dialogue : DialogueKey) (afterSeq toSeq : Nat) :
    Except String (List (RawPacket π)) :=
  if toSeq = 0 || toSeq ≤ afterSeq then .error "Invalid pull range"
  else match checkedAdd afterSeq 1 with
    | none => .ok []
    | some startSeq => .ok
        (((ps.db dialogue).entries.filter (fun e => startSeq ≤ e.1 && e.1 ≤ toSeq)).map
          (fun e => ⟨e.1, e.2⟩))

/-- Merge ascending sequence numbers into runs. `current` is the run being built; a run
that would be one too many truncates the answer. -/
def scanRuns (toSeq maxRuns : Nat) :
    List Nat → List (Nat × Nat) → Option (Nat × Nat) → List (Nat × Nat) × Bool
  | [], runs, current => (runs ++ current.toList, false)
  | seq :: rest, runs, current =>
      if toSeq ≠ 0 ∧ toSeq < seq then (runs ++ current.toList, false)
      else match current with
        | some (first, last) =>
            if seq = last + 1 then scanRuns toSeq maxRuns rest runs (some (first, seq))
            else if maxRuns ≤ (runs ++ [(first, last)]).length then
              (runs ++ [(first, last)], true)
            else scanRuns toSeq maxRuns rest (runs ++ [(first, last)]) (some (seq, seq))
        | none =>
            if maxRuns ≤ runs.length then (runs, true)
            else scanRuns toSeq maxRuns rest runs (some (seq, seq))

/-- The range scan of `map`: the runs of live numbers in `(afterSeq, toSeq]`, and whether
the answer was cut short. `toSeq = 0` leaves the range open. -/
def mapRuns (ps : PacketStore π) (dialogue : DialogueKey) (afterSeq toSeq maxRuns : Nat) :
    List (Nat × Nat) × Bool :=
  match checkedAdd afterSeq 1 with
  | none => ([], false)
  | some startSeq =>
      scanRuns toSeq maxRuns ((ps.live dialogue).filter (fun s => startSeq ≤ s)) [] none

/-- The greatest live sequence number, `0` if there is none. -/
def lastSeq (ps : PacketStore π) (dialogue : DialogueKey) : Nat :=
  ((ps.db dialogue).lastKey?).getD 0

/-- The map of live sequence numbers: a range scan, and after it a separate read of the
greatest number. -/
def map (ps : PacketStore π) (dialogue : DialogueKey) (afterSeq toSeq maxRuns : Nat) :
    Except String MapResult :=
  if toSeq ≠ 0 ∧ toSeq ≤ afterSeq then .error "Invalid map range"
  else
    let scan := ps.mapRuns dialogue afterSeq toSeq maxRuns
    .ok ⟨scan.1, ps.lastSeq dialogue, scan.2⟩

/-- Delete the packets in `[fromSeq, toSeq]`; `fromSeq = 0` starts at the first one. -/
def removeRange (ps : PacketStore π) (dialogue : DialogueKey) (fromSeq toSeq : Nat) :
    Except String (PacketStore π) :=
  if toSeq < fromSeq ∧ fromSeq ≠ 0 then .error "Invalid range"
  else .ok (ps.withDb dialogue
    ((ps.db dialogue).eraseWhere (fun s => decide (max fromSeq 1 ≤ s ∧ s ≤ toSeq))))

/-! ## What the operations do -/

@[simp] theorem withDb_db_self (ps : PacketStore π) (dialogue : DialogueKey) (m : OrdMap Nat π) :
    (ps.withDb dialogue m).db dialogue = m := by
  simp [withDb]

theorem withDb_db_of_ne (ps : PacketStore π) {dialogue dialogue' : DialogueKey}
    (m : OrdMap Nat π) (h : dialogue' ≠ dialogue) :
    (ps.withDb dialogue m).db dialogue' = ps.db dialogue' := by
  simp [withDb, h]

theorem mem_live {ps : PacketStore π} {dialogue : DialogueKey} {seq : Nat} :
    seq ∈ ps.live dialogue ↔ ∃ data, ps.get dialogue seq = some data :=
  OrdMap.mem_keys

theorem mem_packets {ps : PacketStore π} {dialogue : DialogueKey} {pkt : RawPacket π} :
    pkt ∈ ps.packets dialogue ↔ ps.get dialogue pkt.seq = some pkt.payload := by
  rw [get, OrdMap.get?_eq_some, packets, List.mem_map]
  constructor
  · rintro ⟨e, he, rfl⟩
    exact he
  · exact fun h => ⟨_, h, rfl⟩

theorem live_sorted (ps : PacketStore π) (dialogue : DialogueKey) :
    (ps.live dialogue).Pairwise (· < ·) :=
  OrdMap.keys_sorted _

theorem get_put_self (ps : PacketStore π) (dialogue : DialogueKey) (seq : Nat) (data : π) :
    (ps.put dialogue seq data).get dialogue seq = some data := by
  simp [get, put, OrdMap.get?_put_self]

theorem get_put_of_ne (ps : PacketStore π) {dialogue dialogue' : DialogueKey} {seq seq' : Nat}
    (data : π) (h : dialogue' ≠ dialogue ∨ seq' ≠ seq) :
    (ps.put dialogue seq data).get dialogue' seq' = ps.get dialogue' seq' := by
  by_cases hd : dialogue' = dialogue
  · subst hd
    have hs : seq' ≠ seq := by simpa using h
    simp [get, put, OrdMap.get?_put_of_ne _ _ hs]
  · simp [get, put, withDb_db_of_ne _ _ hd]

/-- A packet of the new store is the one put there, or was there before. -/
theorem get_put_eq_some {ps : PacketStore π} {dialogue dialogue' : DialogueKey} {seq seq' : Nat}
    {data data' : π} (h : (ps.put dialogue seq data).get dialogue' seq' = some data') :
    (dialogue' = dialogue ∧ seq' = seq ∧ data' = data) ∨ ps.get dialogue' seq' = some data' := by
  by_cases hk : dialogue' = dialogue ∧ seq' = seq
  · obtain ⟨rfl, rfl⟩ := hk
    rw [get_put_self] at h
    exact Or.inl ⟨rfl, rfl, (Option.some.inj h).symm⟩
  · rw [get_put_of_ne _ _ (not_and_or.mp hk)] at h
    exact Or.inr h

/-- A push succeeds only on a free number, and then adds that packet and nothing else. -/
theorem push_eq_ok {ps ps' : PacketStore π} {dialogue : DialogueKey} {seq : Nat} {data : π} :
    ps.push dialogue seq data = .ok ps' ↔
      ps.get dialogue seq = none ∧ ps' = ps.put dialogue seq data := by
  unfold push
  cases h : ps.get dialogue seq with
  | some d => simp
  | none => simp [eq_comm]

theorem mem_live_put {ps : PacketStore π} {dialogue : DialogueKey} {seq seq' : Nat} {data : π} :
    seq' ∈ (ps.put dialogue seq data).live dialogue ↔ seq' = seq ∨ seq' ∈ ps.live dialogue := by
  simp [live, put, OrdMap.mem_keys_put]

/-- A pull returns the live packets of its range. -/
theorem mem_pull {ps : PacketStore π} {dialogue : DialogueKey} {afterSeq toSeq : Nat}
    {packets : List (RawPacket π)} (h : ps.pull dialogue afterSeq toSeq = .ok packets)
    (hto : toSeq < u64Size) {pkt : RawPacket π} :
    pkt ∈ packets ↔
      afterSeq < pkt.seq ∧ pkt.seq ≤ toSeq ∧ ps.get dialogue pkt.seq = some pkt.payload := by
  unfold pull at h
  split at h
  · exact absurd h (by simp)
  · rename_i hr
    have hlt : afterSeq < toSeq := by
      simp only [Bool.or_eq_true, decide_eq_true_eq, not_or, Nat.not_le] at hr
      exact hr.2
    have hs : checkedAdd afterSeq 1 = some (afterSeq + 1) :=
      checkedAdd_eq_some.mpr ⟨rfl, by omega⟩
    rw [hs] at h
    cases h
    simp only [List.mem_map, List.mem_filter, Bool.and_eq_true, decide_eq_true_eq]
    constructor
    · rintro ⟨e, ⟨he, hge, hle⟩, rfl⟩
      exact ⟨Nat.lt_of_succ_le hge, hle, OrdMap.get?_eq_some.mpr he⟩
    · rintro ⟨hgt, hle, hget⟩
      exact ⟨(pkt.seq, pkt.payload), ⟨OrdMap.get?_eq_some.mp hget, hgt, hle⟩, rfl⟩

/-- The packets of an answer come in ascending order. -/
theorem pull_sorted {ps : PacketStore π} {dialogue : DialogueKey} {afterSeq toSeq : Nat}
    {packets : List (RawPacket π)} (h : ps.pull dialogue afterSeq toSeq = .ok packets) :
    packets.Pairwise (fun a b => a.seq < b.seq) := by
  unfold pull at h
  split at h
  · exact absurd h (by simp)
  · split at h
    · cases h
      exact List.Pairwise.nil
    · cases h
      exact List.pairwise_map.mpr ((ps.db dialogue).sorted.sublist List.filter_sublist)

theorem le_lastSeq {ps : PacketStore π} {dialogue : DialogueKey} {seq : Nat}
    (h : seq ∈ ps.live dialogue) : seq ≤ ps.lastSeq dialogue := by
  unfold lastSeq
  cases hk : (ps.db dialogue).lastKey? with
  | none =>
      rw [OrdMap.lastKey?_eq_none] at hk
      exact absurd h (by simp [live, hk])
  | some k => exact OrdMap.le_lastKey? hk h

theorem lastSeq_mem_or_zero (ps : PacketStore π) (dialogue : DialogueKey) :
    ps.lastSeq dialogue ∈ ps.live dialogue ∨ ps.lastSeq dialogue = 0 := by
  unfold lastSeq
  cases hk : (ps.db dialogue).lastKey? with
  | none => exact Or.inr rfl
  | some k => exact Or.inl (OrdMap.lastKey?_mem hk)

/-- A removal leaves no packet that was not there. -/
theorem get_of_removeRange {ps ps' : PacketStore π} {dialogue dialogue' : DialogueKey}
    {fromSeq toSeq seq : Nat} {data : π} (h : ps.removeRange dialogue fromSeq toSeq = .ok ps')
    (hget : ps'.get dialogue' seq = some data) : ps.get dialogue' seq = some data := by
  unfold removeRange at h
  split at h
  · exact absurd h (by simp)
  · cases h
    by_cases hd : dialogue' = dialogue
    · subst hd
      rw [get, withDb_db_self] at hget
      exact OrdMap.get?_eq_some.mpr (OrdMap.mem_eraseWhere.mp (OrdMap.get?_eq_some.mp hget)).1
    · rwa [get, withDb_db_of_ne _ _ hd] at hget

/-! ## What the scan of `map` returns -/

/-- What a scan says about the numbers `l` it met, those within `toSeq`: it invents none
and skips none, unless it was cut short, and then only beyond its last run. -/
structure ScanOf (toSeq : Nat) (l : List Nat) (runs : List (Nat × Nat)) (truncated : Bool) :
    Prop where
  ascending : Runs.Ascending runs
  sound : ∀ s, Runs.Covers runs s → s ∈ l ∧ (toSeq = 0 ∨ s ≤ toSeq)
  complete : ∀ s ∈ l, toSeq = 0 ∨ s ≤ toSeq →
    Runs.Covers runs s ∨ (truncated = true ∧ ∀ r ∈ runs, r.2 < s)
  cut : truncated = true → runs ≠ []

/-- Growing the run under construction by the next number. -/
private theorem ascending_extend {runs : List (Nat × Nat)} {first last : Nat}
    (h : Runs.Ascending (runs ++ [(first, last)])) :
    Runs.Ascending (runs ++ [(first, last + 1)]) where
  proper r hr := by
    rcases List.mem_append.mp hr with hr | hr
    · exact h.proper r (List.mem_append_left _ hr)
    · have hp := h.proper (first, last) (List.mem_append_right _ (List.mem_singleton_self _))
      rw [List.mem_singleton.mp hr]
      exact Nat.le_succ_of_le hp
  ordered := by
    have ho := List.pairwise_append.mp h.ordered
    refine List.pairwise_append.mpr ⟨ho.1, List.pairwise_singleton _ _, ?_⟩
    intro a ha b hb
    rw [List.mem_singleton.mp hb]
    exact ho.2.2 a ha (first, last) (List.mem_singleton_self _)

/-- Opening a new run beyond all the others. -/
private theorem ascending_open {runs : List (Nat × Nat)} {seq : Nat}
    (h : Runs.Ascending runs) (hlt : ∀ r ∈ runs, r.2 < seq) :
    Runs.Ascending (runs ++ [(seq, seq)]) where
  proper r hr := by
    rcases List.mem_append.mp hr with hr | hr
    · exact h.proper r hr
    · exact Nat.le_of_eq (by rw [List.mem_singleton.mp hr])
  ordered := by
    refine List.pairwise_append.mpr ⟨h.ordered, List.pairwise_singleton _ _, ?_⟩
    intro a ha b hb
    rw [List.mem_singleton.mp hb]
    exact hlt a ha

/-- The loop invariant of the scan: `done` are the numbers already merged. -/
private theorem scanRuns_spec (toSeq : Nat) {maxRuns : Nat} (hmax : 0 < maxRuns) :
    ∀ (l done : List Nat) (runs : List (Nat × Nat)) (current : Option (Nat × Nat)),
      l.Pairwise (· < ·) →
      (∀ r ∈ runs ++ current.toList, ∀ s ∈ l, r.2 < s) →
      ScanOf toSeq done (runs ++ current.toList) false →
      ScanOf toSeq (done ++ l) (scanRuns toSeq maxRuns l runs current).1
        (scanRuns toSeq maxRuns l runs current).2 := by
  intro l
  induction l with
  | nil =>
      intro done runs current _ _ hd
      simpa [scanRuns] using hd
  | cons seq rest ih =>
      intro done runs current hl hlt hd
      have hrest : ∀ s ∈ rest, seq < s := (List.pairwise_cons.mp hl).1
      have hmerged : ∀ s ∈ done, toSeq = 0 ∨ s ≤ toSeq → Runs.Covers (runs ++ current.toList) s :=
        fun s hs hto => (hd.complete s hs hto).resolve_right (by simp)
      rw [scanRuns.eq_def]
      dsimp only
      split
      · -- everything from here on is beyond the requested range
        rename_i hto
        refine ⟨hd.ascending, fun s hs => ?_, fun s hs hs' => Or.inl ?_, by simp⟩
        · exact (hd.sound s hs).imp_left (List.mem_append_left _)
        · rcases List.mem_append.mp hs with hs | hs
          · exact hmerged s hs hs'
          · have : seq ≤ s := by
              rcases List.mem_cons.mp hs with rfl | hs
              · exact Nat.le_refl _
              · exact Nat.le_of_lt (hrest s hs)
            omega
      · rename_i hto
        have hin : toSeq = 0 ∨ seq ≤ toSeq := by omega
        -- a run opened at `seq` continues the scan
        have hopen : ∀ runs' : List (Nat × Nat), runs' = runs ++ current.toList →
            ScanOf toSeq (done ++ seq :: rest) (scanRuns toSeq maxRuns rest runs' (some (seq, seq))).1
              (scanRuns toSeq maxRuns rest runs' (some (seq, seq))).2 := by
          rintro _ rfl
          have := ih (done ++ [seq]) (runs ++ current.toList) (some (seq, seq))
            (List.pairwise_cons.mp hl).2 ?_ ?_
          · simpa using this
          · intro r hr s hs
            rcases List.mem_append.mp hr with hr | hr
            · exact hlt r hr s (List.mem_cons_of_mem _ hs)
            · rw [List.mem_singleton.mp hr]
              exact hrest s hs
          · refine ⟨ascending_open hd.ascending
              (fun r hr => hlt r hr seq List.mem_cons_self), ?_, ?_, by simp⟩
            · intro s hs
              rcases Runs.covers_append.mp hs with hs | hs
              · exact (hd.sound s hs).imp_left (List.mem_append_left _)
              · have : s = seq := by simp at hs; omega
                subst this
                exact ⟨by simp, hin⟩
            · intro s hs hs'
              refine Or.inl (Runs.covers_append.mpr ?_)
              rcases List.mem_append.mp hs with hs | hs
              · exact Or.inl (hmerged s hs hs')
              · rw [List.mem_singleton.mp hs]
                exact Or.inr (by simp)
        -- a cut before `seq` ends the scan
        have hcut : ∀ runs' : List (Nat × Nat), runs' = runs ++ current.toList → runs' ≠ [] →
            ScanOf toSeq (done ++ seq :: rest) runs' true := by
          rintro _ rfl hne
          refine ⟨hd.ascending, fun s hs => ?_, fun s hs hs' => ?_, fun _ => hne⟩
          · exact (hd.sound s hs).imp_left (List.mem_append_left _)
          · rcases List.mem_append.mp hs with hs | hs
            · exact Or.inl (hmerged s hs hs')
            · exact Or.inr ⟨rfl, fun r hr => hlt r hr s hs⟩
        cases current with
        | none =>
            dsimp only
            split
            · rename_i hfull
              refine hcut runs (by simp) (fun h => ?_)
              rw [h, List.length_nil] at hfull
              omega
            · exact hopen runs (by simp)
        | some cur =>
            obtain ⟨first, last⟩ := cur
            dsimp only
            split
            · rename_i hnext
              subst hnext
              have := ih (done ++ [last + 1]) runs (some (first, last + 1))
                (List.pairwise_cons.mp hl).2 ?_ ?_
              · simpa using this
              · intro r hr s hs
                rcases List.mem_append.mp hr with hr | hr
                · exact hlt r (List.mem_append_left _ hr) s (List.mem_cons_of_mem _ hs)
                · rw [List.mem_singleton.mp hr]
                  exact hrest s hs
              · have hf : first ≤ last := hd.ascending.proper (first, last) (by simp)
                refine ⟨ascending_extend hd.ascending, ?_, ?_, by simp⟩
                · intro s hs
                  by_cases hseq : s = last + 1
                  · subst hseq
                    exact ⟨by simp, hin⟩
                  · have : Runs.Covers (runs ++ [(first, last)]) s := by
                      simp only [Option.toList_some, Runs.covers_append, Runs.covers_cons,
                        Runs.not_covers_nil, or_false] at hs ⊢
                      exact hs.imp_right (fun h => ⟨h.1, by omega⟩)
                    exact (hd.sound s this).imp_left (List.mem_append_left _)
                · intro s hs hs'
                  refine Or.inl ?_
                  simp only [Option.toList_some, Runs.covers_append, Runs.covers_cons,
                    Runs.not_covers_nil, or_false]
                  rcases List.mem_append.mp hs with hs | hs
                  · have := hmerged s hs hs'
                    simp only [Option.toList_some, Runs.covers_append, Runs.covers_cons,
                      Runs.not_covers_nil, or_false] at this
                    exact this.imp_right (fun h => ⟨h.1, by omega⟩)
                  · rw [List.mem_singleton.mp hs]
                    exact Or.inr ⟨by omega, Nat.le_refl _⟩
            · split
              · exact hcut _ (by simp) (by simp)
              · exact hopen _ (by simp)

/-- **The scan of `map`.** The answer covers exactly the live numbers of the range, up to
its last run when it was truncated. -/
theorem mapRuns_spec (ps : PacketStore π) (dialogue : DialogueKey) (toSeq : Nat)
    {afterSeq maxRuns : Nat} (hmax : 0 < maxRuns) (hafter : afterSeq + 1 < u64Size) :
    ScanOf toSeq ((ps.live dialogue).filter (fun s => afterSeq + 1 ≤ s))
      (ps.mapRuns dialogue afterSeq toSeq maxRuns).1
      (ps.mapRuns dialogue afterSeq toSeq maxRuns).2 := by
  unfold mapRuns
  rw [checkedAdd_eq_some.mpr ⟨rfl, hafter⟩]
  have := scanRuns_spec toSeq hmax ((ps.live dialogue).filter (fun s => afterSeq + 1 ≤ s))
    [] [] none ((ps.live_sorted dialogue).sublist List.filter_sublist) (by simp)
    ⟨Runs.Ascending.nil, by simp, by simp, by simp⟩
  simpa using this

/-- The runs of a map answer cover live numbers only. -/
theorem covers_map {ps : PacketStore π} {dialogue : DialogueKey} {afterSeq toSeq maxRuns : Nat}
    {m : MapResult} (h : ps.map dialogue afterSeq toSeq maxRuns = .ok m) (hmax : 0 < maxRuns)
    {s : Nat} (hs : Runs.Covers m.runs s) : s ∈ ps.live dialogue := by
  unfold map at h
  split at h
  · cases h
  · cases h
    by_cases hafter : afterSeq + 1 < u64Size
    · have hscan := mapRuns_spec ps dialogue toSeq hmax hafter
      exact (List.mem_filter.mp (hscan.sound s hs).1).1
    · have hnone : checkedAdd afterSeq 1 = none := by
        unfold checkedAdd
        rw [if_neg hafter]
      rw [mapRuns, hnone] at hs
      exact absurd hs Runs.not_covers_nil

example : scanRuns 0 2 [1, 2, 3, 7, 9, 10] [] none = ([(1, 3), (7, 7)], true) := by decide

end PacketStore

end Paranoia
