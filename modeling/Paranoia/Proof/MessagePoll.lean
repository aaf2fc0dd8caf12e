import Mathlib.Data.Finset.Card
import Mathlib.Data.List.Nodup
import Mathlib.Order.Interval.Finset.Nat
import Paranoia.Client.MessagePoll
import Paranoia.Lib.Glued
import Paranoia.Lib.Lts

/-!
# When the polls miss nothing

A cursor that is moved by the number of packets an answer counted stays below what was not counted, as
long as the numbers come in ascending order and the answer counts all that is above the cursor. But
`MSG_SEEN_SEQ` and `MSG_INFLIGHT` know a dialogue by the two names alone: the same identity on another
server reads the cursor of the first one, and gets no request of its own. And a snapshot that takes a
position back is read with the cursor of the earlier one.
-/

namespace Paranoia

namespace PollWorld

variable {w w' : PollWorld} {l : PollLabel} {place : Place} {p : ProfileHint} {d : DialogHint}
  {q s v : Nat} {sender partner : String} {polled lit : List (String × Nat)}

/-! ## What is asked of the steps -/

/-- The snapshot names each user and each partner once. A user stays on the server that earlier
snapshots had it on, and no position is behind an earlier one. -/
structure Fits (past profiles : List ProfileHint) : Prop where
  senders : (profiles.map ProfileHint.sender).Nodup
  partners : ∀ p ∈ profiles, (p.dialogs.map DialogHint.partner).Nodup
  plain : ∀ p ∈ profiles, '|' ∉ p.sender.toList
  home : ∀ p ∈ profiles, ∀ p' ∈ past, p'.sender = p.sender → p'.server = p.server
  forward : ∀ p ∈ profiles, ∀ p' ∈ past, p'.sender = p.sender →
    ∀ d ∈ p.dialogs, ∀ d' ∈ p'.dialogs, d'.partner = d.partner → d'.seq ≤ d.seq

/-- The packets of a partner come in ascending order. What an answer leaves out, because the server
has the user past it, is not reached by the number of packets it counts. -/
def Undisturbed (w : PollWorld) : PollLabel → Prop
  | .handleSnapshotIntent raw => Fits w.past (keepProfiles raw)
  | .push place seq fromPartner => fromPartner → w.top place < seq
  | .answer sender _ =>
      match w.flying sender with
      | some ⟨p, .asking polled⟩ =>
          ∀ d ∈ p.dialogs, ∀ x ∈ polled, x.1 = d.partner →
            ∀ s ∈ w.uncounted (p.place x.1), d.seq < s →
              w.lastSeq (p.place x.1) < s ∨ x.2 + w.countNew (p.place x.1) x.2 < s
      | _ => True
  | _ => True

instance (past profiles : List ProfileHint) : Decidable (Fits past profiles) :=
  decidable_of_iff
    ((profiles.map ProfileHint.sender).Nodup
      ∧ (∀ p ∈ profiles, (p.dialogs.map DialogHint.partner).Nodup)
      ∧ (∀ p ∈ profiles, '|' ∉ p.sender.toList)
      ∧ (∀ p ∈ profiles, ∀ p' ∈ past, p'.sender = p.sender → p'.server = p.server)
      ∧ ∀ p ∈ profiles, ∀ p' ∈ past, p'.sender = p.sender →
        ∀ d ∈ p.dialogs, ∀ d' ∈ p'.dialogs, d'.partner = d.partner → d'.seq ≤ d.seq)
    ⟨fun ⟨senders, partners, plain, home, forward⟩ => ⟨senders, partners, plain, home, forward⟩,
      fun h => ⟨h.senders, h.partners, h.plain, h.home, h.forward⟩⟩

instance (w : PollWorld) (l : PollLabel) : Decidable (w.Undisturbed l) := by
  unfold Undisturbed
  split
  · infer_instance
  · infer_instance
  · split <;> infer_instance
  · infer_instance

/-! ## The invariant -/

/-- A cursor that was reached from the position. -/
def Behind (w : PollWorld) (place : Place) (q v : Nat) : Prop :=
  v ≤ w.top place ∧ ∀ s ∈ w.uncounted place, q < s → v < s

/-- The profile has no position that is ahead of the profile. -/
def Ahead (p p' : ProfileHint) : Prop :=
  p'.sender = p.sender →
    ∀ d ∈ p.dialogs, ∀ d' ∈ p'.dialogs, d'.partner = d.partner → d'.seq ≤ d.seq

/-- What the thread has of an answer can be noted. -/
def Notable (w : PollWorld) (p : ProfileHint) (polled lit : List (String × Nat)) : Prop :=
  ∀ x ∈ lit, ∃ d ∈ p.dialogs, d.partner = x.1
    ∧ w.Behind (p.place d.partner) d.seq (base polled x.1 + x.2)

def SeenBehind (w : PollWorld) (p : ProfileHint) : Prop :=
  ∀ d ∈ p.dialogs, ∀ v ∈ w.seen (seenKey p.sender d.partner),
    w.Behind (p.place d.partner) d.seq v

/-- Each dialogue is asked about from its position, or from a cursor that was reached from it. -/
def AsksBelow (w : PollWorld) (p : ProfileHint) (polled : List (String × Nat)) : Prop :=
  ∃ cursor : DialogHint → Nat, polled = p.dialogs.map (fun d => (d.partner, cursor d))
    ∧ ∀ d ∈ p.dialogs, cursor d = d.seq ∨ w.Behind (p.place d.partner) d.seq (cursor d)

def PhaseSound (w : PollWorld) (p : ProfileHint) : FlightPhase → Prop
  | .starting => w.SeenBehind p ∧ ∀ t ∈ w.tails, Ahead p t.profile
  | .asking polled => w.AsksBelow p polled
  | .answered polled lit => w.Notable p polled lit

structure ServerSound (w : PollWorld) : Prop where
  nodup : ∀ place, ((w.packets place).map LivePacket.seq).Nodup
  top : ∀ place, ∀ x ∈ w.packets place, x.seq ≤ w.top place

structure PastSound (w : PollWorld) : Prop where
  partners : ∀ p ∈ w.past, (p.dialogs.map DialogHint.partner).Nodup
  plain : ∀ p ∈ w.past, '|' ∉ p.sender.toList
  home : ∀ p ∈ w.past, ∀ p' ∈ w.past, p'.sender = p.sender → p'.server = p.server
  mem : ∀ p ∈ w.snapshot, p ∈ w.past ∧ p.dialogs ≠ []
  latest : ∀ p ∈ w.snapshot, ∀ p' ∈ w.past, Ahead p p'

structure Sound (w : PollWorld) : Prop where
  server : w.ServerSound
  past : w.PastSound
  seen : ∀ key, ∀ v ∈ w.seen key, ∃ p ∈ w.past, ∃ d ∈ p.dialogs,
    key = seenKey p.sender d.partner ∧ w.Behind (p.place d.partner) d.seq v
  flying : ∀ sender f, w.flying sender = some f →
    f.profile.sender = sender ∧ f.profile ∈ w.past ∧ w.PhaseSound f.profile f.phase
  tails : ∀ t ∈ w.tails, t.profile ∈ w.past ∧ w.Notable t.profile t.polled t.lit

def Running (w : PollWorld) : Prop :=
  w.launched = true → ∀ p ∈ w.snapshot,
    (w.flying p.sender).isSome = true ∨ ∃ t ∈ w.tails, t.profile.sender = p.sender

/-! ## Cursors -/

theorem Behind.weaken {q' : Nat} (h : w.Behind place q v) (hq : q ≤ q') : w.Behind place q' v :=
  ⟨h.1, fun s hs hlt => h.2 s hs (by omega)⟩

/-- What is to be heard of was to be heard of before, or is new. -/
structure Grows (w w' : PollWorld) : Prop where
  top : ∀ place, w.top place ≤ w'.top place
  uncounted : ∀ place, ∀ s ∈ w'.uncounted place, s ∈ w.uncounted place ∨ w.top place < s

theorem Behind.mono (h : w.Behind place q v) (hg : Grows w w') : w'.Behind place q v := by
  refine ⟨h.1.trans (hg.top place), fun s hs hlt => ?_⟩
  rcases hg.uncounted place s hs with hold | hnew
  · exact h.2 s hold hlt
  · exact Nat.lt_of_le_of_lt h.1 hnew

theorem Notable.mono (h : w.Notable p polled lit) (hg : Grows w w') : w'.Notable p polled lit := by
  intro x hx
  obtain ⟨d, hd, hpartner, hbehind⟩ := h x hx
  exact ⟨d, hd, hpartner, hbehind.mono hg⟩

theorem AsksBelow.mono (h : w.AsksBelow p polled) (hg : Grows w w') : w'.AsksBelow p polled := by
  obtain ⟨cursor, hpolled, hcursor⟩ := h
  exact ⟨cursor, hpolled, fun d hd => (hcursor d hd).imp_right (fun hb => hb.mono hg)⟩

/-- A step of the server, as far as what is to be heard of grows. -/
theorem Sound.grow {packets : Place → List LivePacket} {lastSeq top : Place → Nat}
    {counted : Place → List Nat} (h : w.Sound)
    (hserver : ServerSound
      { w with packets := packets, lastSeq := lastSeq, top := top, counted := counted })
    (hg : Grows w { w with packets := packets, lastSeq := lastSeq, top := top, counted := counted }) :
    Sound { w with packets := packets, lastSeq := lastSeq, top := top, counted := counted } where
  server := hserver
  past := ⟨h.past.partners, h.past.plain, h.past.home, h.past.mem, h.past.latest⟩
  seen key v hv := by
    obtain ⟨p, hp, d, hd, hkey, hbehind⟩ := h.seen key v hv
    exact ⟨p, hp, d, hd, hkey, hbehind.mono hg⟩
  flying sender f hf := by
    obtain ⟨hsender, hmem, hphase⟩ := h.flying sender f hf
    refine ⟨hsender, hmem, ?_⟩
    cases hcase : f.phase with
    | starting =>
        rw [hcase] at hphase
        exact ⟨fun d hd v hv => (hphase.1 d hd v hv).mono hg, hphase.2⟩
    | asking polled =>
        rw [hcase] at hphase
        exact AsksBelow.mono hphase hg
    | answered polled lit =>
        rw [hcase] at hphase
        exact Notable.mono hphase hg
  tails t ht := ⟨(h.tails t ht).1, (h.tails t ht).2.mono hg⟩

/-! ## The server -/

theorem mem_uncounted :
    s ∈ w.uncounted place ↔ ⟨s, true⟩ ∈ w.packets place ∧ s ∉ w.counted place := by
  unfold uncounted
  rw [List.mem_map]
  constructor
  · rintro ⟨⟨seq, fromPartner⟩, hx, rfl⟩
    obtain ⟨hmem, hkeep⟩ := List.mem_filter.mp hx
    obtain ⟨rfl, hcounted⟩ := of_decide_eq_true hkeep
    exact ⟨hmem, hcounted⟩
  · rintro ⟨hmem, hcounted⟩
    exact ⟨⟨s, true⟩, List.mem_filter.mpr ⟨hmem, decide_eq_true ⟨rfl, hcounted⟩⟩, rfl⟩

theorem sound_push {seq : Nat} {fromPartner : Bool} (h : w.Sound)
    (hok : w.Undisturbed (.push place seq fromPartner))
    (hs : w.step (.push place seq fromPartner) = some w') : w'.Sound := by
  unfold step at hs
  dsimp only at hs
  split at hs
  · cases hs
  · rename_i hfree
    obtain ⟨hfree, -⟩ := not_or.mp hfree
    cases hs
    refine h.grow ⟨fun at' => ?_, fun at' x hx => ?_⟩ ⟨fun at' => ?_, fun at' s hs => ?_⟩
    · by_cases hat : at' = place
      · subst hat
        dsimp only
        rw [Function.update_self, List.map_cons]
        exact List.nodup_cons.mpr ⟨hfree, h.server.nodup at'⟩
      · dsimp only
        rw [Function.update_of_ne hat]
        exact h.server.nodup at'
    · by_cases hat : at' = place
      · subst hat
        dsimp only at hx ⊢
        rw [Function.update_self] at hx ⊢
        rcases List.mem_cons.mp hx with rfl | hx
        · exact le_max_right _ _
        · exact (h.server.top at' x hx).trans (le_max_left _ _)
      · dsimp only at hx ⊢
        rw [Function.update_of_ne hat] at hx ⊢
        exact h.server.top at' x hx
    · by_cases hat : at' = place
      · subst hat
        dsimp only
        rw [Function.update_self]
        exact le_max_left _ _
      · dsimp only
        rw [Function.update_of_ne hat]
    · obtain ⟨hmem, hcounted⟩ := mem_uncounted.mp hs
      by_cases hat : at' = place
      · subst hat
        dsimp only at hmem hcounted
        rw [Function.update_self] at hmem hcounted
        rcases List.mem_cons.mp hmem with heq | hmem
        · -- the new packet is above all there ever was
          cases heq
          exact .inr (hok rfl)
        · refine .inl (mem_uncounted.mpr ⟨hmem, fun hc => hcounted (List.mem_filter.mpr ⟨hc, ?_⟩)⟩)
          exact decide_eq_true (fun heq => hfree (heq ▸ List.mem_map_of_mem hmem))
      · dsimp only at hmem hcounted
        rw [Function.update_of_ne hat] at hmem hcounted
        exact .inl (mem_uncounted.mpr ⟨hmem, hcounted⟩)

theorem sound_delete {seqs : List Nat} (h : w.Sound) :
    Sound { w with packets :=
      Function.update w.packets place ((w.packets place).filter (fun x => x.seq ∉ seqs)) } := by
  have hsub : ∀ at', (Function.update w.packets place
      ((w.packets place).filter (fun x => x.seq ∉ seqs)) at').Sublist (w.packets at') := by
    intro at'
    by_cases hat : at' = place
    · subst hat
      rw [Function.update_self]
      exact List.filter_sublist
    · rw [Function.update_of_ne hat]
  refine @Sound.grow w _ w.lastSeq w.top w.counted h
    ⟨fun at' => (h.server.nodup at').sublist ((hsub at').map _),
      fun at' x hx => h.server.top at' x ((hsub at').subset hx)⟩
    ⟨fun _ => le_rfl, fun at' s hs => ?_⟩
  obtain ⟨hmem, hcounted⟩ := mem_uncounted.mp hs
  exact .inl (mem_uncounted.mpr ⟨(hsub at').subset hmem, hcounted⟩)

theorem sound_updateLastSeq {lastSeq : Place → Nat} (h : w.Sound) :
    Sound { w with lastSeq := lastSeq } :=
  @Sound.grow w w.packets lastSeq w.top w.counted h ⟨h.server.nodup, h.server.top⟩
    ⟨fun _ => le_rfl, fun _ _ hs => .inl hs⟩

/-! ## Snapshots -/

theorem eq_of_fits {past profiles : List ProfileHint} {p p' : ProfileHint} (h : Fits past profiles)
    (hp : p ∈ profiles) (hp' : p' ∈ profiles) (heq : p'.sender = p.sender) : p' = p :=
  List.inj_on_of_nodup_map h.senders hp' hp heq

theorem sound_snapshot {raw : List ProfileHint} (h : w.Sound) (hok : Fits w.past (keepProfiles raw)) :
    Sound { w with
      snapshot := keepProfiles raw, past := keepProfiles raw ++ w.past, launched := false } where
  server := ⟨h.server.nodup, h.server.top⟩
  past := by
    refine ⟨fun p hp => ?_, fun p hp => ?_, fun p hp p' hp' heq => ?_, fun p hp => ?_,
      fun p hp p' hp' heq d hd d' hd' hpartner => ?_⟩
    · exact (List.mem_append.mp hp).elim (hok.partners p) (h.past.partners p)
    · exact (List.mem_append.mp hp).elim (hok.plain p) (h.past.plain p)
    · rcases List.mem_append.mp hp with hp | hp <;> rcases List.mem_append.mp hp' with hp' | hp'
      · rw [eq_of_fits hok hp hp' heq]
      · exact hok.home p hp p' hp' heq
      · exact (hok.home p' hp' p hp heq.symm).symm
      · exact h.past.home p hp p' hp' heq
    · exact ⟨List.mem_append_left _ hp, of_decide_eq_true (List.mem_filter.mp hp).2⟩
    · rcases List.mem_append.mp hp' with hp' | hp'
      · cases eq_of_fits hok hp hp' heq
        rw [List.inj_on_of_nodup_map (hok.partners p hp) hd' hd hpartner]
      · exact hok.forward p hp p' hp' heq d hd d' hd' hpartner
  seen key v hv := by
    obtain ⟨p, hp, hrest⟩ := h.seen key v hv
    exact ⟨p, List.mem_append_right _ hp, hrest⟩
  flying sender f hf := by
    obtain ⟨hsender, hmem, hphase⟩ := h.flying sender f hf
    refine ⟨hsender, List.mem_append_right _ hmem, ?_⟩
    cases hcase : f.phase <;> exact hcase ▸ hphase
  tails t ht := ⟨List.mem_append_right _ (h.tails t ht).1, (h.tails t ht).2⟩

/-! ## Threads -/

/-- The two names of a dialogue, read off its key. -/
theorem seenKey_inj {sender' partner' : String} (h : '|' ∉ sender.toList)
    (h' : '|' ∉ sender'.toList) (heq : seenKey sender partner = seenKey sender' partner') :
    sender = sender' ∧ partner = partner' := by
  have hlist : sender.toList ++ '|' :: partner.toList = sender'.toList ++ '|' :: partner'.toList := by
    have := congrArg String.toList heq
    simpa [seenKey] using this
  have hsplit := congrArg (Glued.splitOnce '|') hlist
  rw [Glued.splitOnce_append h, Glued.splitOnce_append h'] at hsplit
  obtain ⟨hsender, hpartner⟩ := Prod.mk.inj (Option.some.inj hsplit)
  exact ⟨String.toList_injective hsender, String.toList_injective hpartner⟩

/-- The cursor of a dialogue, in terms of a profile of a snapshot that had its users. -/
theorem Sound.seenBehind (h : w.Sound) (hp : p ∈ w.past)
    (hv : v ∈ w.seen (seenKey p.sender d.partner)) :
    ∃ p' ∈ w.past, p'.sender = p.sender ∧ ∃ d' ∈ p'.dialogs, d'.partner = d.partner
      ∧ w.Behind (p.place d.partner) d'.seq v := by
  obtain ⟨p', hp', d', hd', hkey, hbehind⟩ := h.seen _ v hv
  obtain ⟨hsender, hpartner⟩ := seenKey_inj (h.past.plain p hp) (h.past.plain p' hp') hkey
  refine ⟨p', hp', hsender.symm, d', hd', hpartner.symm, ?_⟩
  have hserver := h.past.home p hp p' hp' hsender.symm
  have hplace : p'.place d'.partner = p.place d.partner := by
    unfold ProfileHint.place
    rw [hserver, hsender, hpartner]
  exact hplace ▸ hbehind

theorem Sound.setFlying {f : PollFlight} (h : w.Sound) (hsender : f.profile.sender = sender)
    (hmem : f.profile ∈ w.past) (hphase : w.PhaseSound f.profile f.phase) :
    Sound { w with flying := Function.update w.flying sender (some f) } where
  server := ⟨h.server.nodup, h.server.top⟩
  past := ⟨h.past.partners, h.past.plain, h.past.home, h.past.mem, h.past.latest⟩
  seen := h.seen
  flying sender' f' hf' := by
    by_cases hat : sender' = sender
    · subst hat
      dsimp only at hf'
      rw [Function.update_self] at hf'
      cases hf'
      refine ⟨hsender, hmem, ?_⟩
      cases hcase : f.phase <;> exact hcase ▸ hphase
    · dsimp only at hf'
      rw [Function.update_of_ne hat] at hf'
      obtain ⟨hsender', hmem', hphase'⟩ := h.flying sender' f' hf'
      refine ⟨hsender', hmem', ?_⟩
      cases hcase : f'.phase <;> exact hcase ▸ hphase'
  tails := h.tails

theorem sound_spawn (h : w.Sound) (hp : p ∈ w.snapshot) : (w.spawnProfileLongPoll p).Sound := by
  unfold spawnProfileLongPoll
  split
  · exact h
  · have hpast := (h.past.mem p hp).1
    refine h.setFlying rfl hpast ⟨fun d hd v hv => ?_, fun t ht => ?_⟩
    · -- no earlier position is ahead of the one the snapshot has now
      obtain ⟨p', hp', hsender, d', hd', hpartner, hbehind⟩ := h.seenBehind hpast hv
      exact hbehind.weaken (h.past.latest p hp p' hp' hsender d hd d' hd' hpartner)
    · exact h.past.latest p hp t.profile (h.tails t ht).1

theorem sound_ask (h : w.Sound) (hf : w.flying sender = some ⟨p, .starting⟩) :
    (w.setPhase sender ⟨p, .starting⟩ (.asking (w.items p))).Sound := by
  obtain ⟨hsender, hmem, hseen, -⟩ := h.flying sender _ hf
  refine h.setFlying hsender hmem ⟨w.cursor p, rfl, fun d hd => ?_⟩
  unfold cursor
  split
  · rename_i v hv
    split
    · exact .inr (hseen d hd v hv)
    · exact .inl rfl
  · exact .inl rfl

/-! ## Answers -/

theorem mem_lit {unregistered : List String} {x : String × Nat}
    (hx : x ∈ w.lit p polled unregistered) :
    ∃ cursor, (x.1, cursor) ∈ polled ∧ x.1 ∉ unregistered ∧ 0 < x.2
      ∧ x.2 = w.countNew (p.place x.1) cursor := by
  obtain ⟨y, hy, hsome⟩ := List.mem_filterMap.mp hx
  split at hsome
  · cases hsome
  · rename_i hcond
    obtain ⟨hreg, hpos⟩ := not_or.mp hcond
    cases hsome
    exact ⟨y.2, hy, hreg, Nat.pos_of_ne_zero hpos, rfl⟩

/-- A count moves the cursor no further than to the greatest number. -/
theorem countNew_le (h : w.ServerSound) {cursor : Nat} (hpos : 0 < w.countNew place cursor) :
    cursor + w.countNew place cursor ≤ w.top place := by
  have hnodup : (((w.packets place).filter (fun x => max cursor (w.lastSeq place) < x.seq)).map
      LivePacket.seq).Nodup :=
    (h.nodup place).sublist (List.filter_sublist.map _)
  have hsub : (((w.packets place).filter (fun x => max cursor (w.lastSeq place) < x.seq)).map
      LivePacket.seq).toFinset ⊆ Finset.Ioc cursor (w.top place) := by
    intro s hs
    obtain ⟨x, hx, rfl⟩ := List.mem_map.mp (List.mem_toFinset.mp hs)
    obtain ⟨hmem, hlt⟩ := List.mem_filter.mp hx
    have hlt := of_decide_eq_true hlt
    exact Finset.mem_Ioc.mpr ⟨by omega, h.top place x hmem⟩
  have hcard := Finset.card_le_card hsub
  rw [List.toFinset_card_of_nodup hnodup, List.length_map, Nat.card_Ioc] at hcard
  unfold countNew at hpos ⊢
  omega

/-- Of the partners that the request names each has its cursor. -/
theorem base_eq {cursor : DialogHint → Nat} (hnodup : (p.dialogs.map DialogHint.partner).Nodup)
    (hd : d ∈ p.dialogs) :
    base (p.dialogs.map (fun d => (d.partner, cursor d))) d.partner = cursor d := by
  unfold base
  cases hfind : (p.dialogs.map (fun d => (d.partner, cursor d))).reverse.find?
      (fun x => x.1 = d.partner) with
  | none =>
      have := List.find?_eq_none.mp hfind (d.partner, cursor d)
        (List.mem_reverse.mpr (List.mem_map.mpr ⟨d, hd, rfl⟩))
      exact absurd (decide_eq_true rfl) this
  | some x =>
      obtain ⟨d', hd', rfl⟩ := List.mem_map.mp (List.mem_reverse.mp (List.mem_of_find?_eq_some hfind))
      have hpartner : d'.partner = d.partner := of_decide_eq_true (List.find?_some hfind :)
      rw [List.inj_on_of_nodup_map hnodup hd' hd hpartner]
      rfl

theorem mem_countedBy {unregistered : List String} {cursor : Nat} (hx : (partner, cursor) ∈ polled)
    (hreg : partner ∉ unregistered) (hs : ⟨s, true⟩ ∈ w.packets (p.place partner))
    (hlt : max cursor (w.lastSeq (p.place partner)) < s) :
    s ∈ w.countedBy p polled unregistered (p.place partner) := by
  unfold countedBy
  rw [if_pos (show p.place partner = p.place (p.place partner).partner from rfl)]
  refine List.mem_flatMap.mpr ⟨(partner, cursor), ?_, ?_⟩
  · exact List.mem_filter.mpr ⟨hx, decide_eq_true ⟨rfl, hreg⟩⟩
  · exact List.mem_map.mpr ⟨⟨s, true⟩, List.mem_filter.mpr ⟨hs, decide_eq_true ⟨rfl, hlt⟩⟩, rfl⟩

theorem sound_answer {unregistered : List String} (h : w.Sound)
    (hf : w.flying sender = some ⟨p, .asking polled⟩)
    (hok : ∀ d ∈ p.dialogs, ∀ x ∈ polled, x.1 = d.partner →
      ∀ s ∈ w.uncounted (p.place x.1), d.seq < s →
        w.lastSeq (p.place x.1) < s ∨ x.2 + w.countNew (p.place x.1) x.2 < s) :
    Sound { w.setPhase sender ⟨p, .asking polled⟩
        (.answered polled (w.lit p polled unregistered)) with
      counted := fun place => w.countedBy p polled unregistered place ++ w.counted place } := by
  obtain ⟨hsender, hmem, cursor, hpolled, hcursor⟩ := h.flying sender _ hf
  have hcounted := @Sound.grow w w.packets w.lastSeq w.top
    (fun place => w.countedBy p polled unregistered place ++ w.counted place) h
    ⟨h.server.nodup, h.server.top⟩
    ⟨fun _ => le_rfl, fun place s hs => by
      obtain ⟨hpacket, hnot⟩ := mem_uncounted.mp hs
      exact .inl (mem_uncounted.mpr ⟨hpacket, fun hc => hnot (List.mem_append_right _ hc)⟩)⟩
  refine hcounted.setFlying hsender hmem (fun x hx => ?_)
  obtain ⟨c, hpair, hreg, hpos, hn⟩ := mem_lit hx
  obtain ⟨d, hd, heq⟩ := List.mem_map.mp (hpolled ▸ hpair)
  obtain ⟨hpartner, rfl⟩ := Prod.mk.inj heq
  refine ⟨d, hd, hpartner, ?_⟩
  have hbase : base polled x.1 = cursor d := by
    rw [hpolled, ← hpartner]
    exact base_eq (h.past.partners p hmem) hd
  rw [hbase, hn, hpartner]
  refine ⟨countNew_le h.server (hn ▸ hpos), fun s hs hlt => ?_⟩
  obtain ⟨hpacket, hnot⟩ := mem_uncounted.mp hs
  have hold : s ∈ w.uncounted (p.place x.1) :=
    mem_uncounted.mpr ⟨hpacket, fun hc => hnot (List.mem_append_right _ hc)⟩
  rcases hok d hd (x.1, cursor d) hpair hpartner.symm s hold hlt with hlast | hreach
  · -- what is above the cursor and the position of the server was counted
    have habove : cursor d < s := by
      rcases hcursor d hd with hseq | hbehind
      · omega
      · exact hbehind.2 s (hpartner ▸ hold) hlt
    exact absurd (List.mem_append_left _ (mem_countedBy hpair hreg hpacket (max_lt habove hlast)))
      hnot
  · exact hreach

/-- The threads that have had their answers matter to who is still to ask. -/
theorem PhaseSound.setTails {phase : FlightPhase} {flying : String → Option PollFlight}
    {tails : List PollTail} (h : w.PhaseSound p phase)
    (hahead : (∀ t ∈ w.tails, Ahead p t.profile) → ∀ t ∈ tails, Ahead p t.profile) :
    PhaseSound { w with flying := flying, tails := tails } p phase := by
  cases phase with
  | starting => exact ⟨h.1, hahead h.2⟩
  | asking polled => exact h
  | answered polled lit => exact h

/-- A thread whose answer can be noted leaves `MSG_INFLIGHT`. -/
theorem sound_leave {f : PollFlight} (h : w.Sound) (hf : w.flying sender = some f)
    (hlit : w.Notable f.profile polled lit) : (w.leave sender ⟨f.profile, polled, lit⟩).Sound := by
  obtain ⟨hsender, hmem, -⟩ := h.flying sender f hf
  refine ⟨⟨h.server.nodup, h.server.top⟩,
    ⟨h.past.partners, h.past.plain, h.past.home, h.past.mem, h.past.latest⟩, h.seen,
    fun sender' f' hf' => ?_, fun t ht => ?_⟩
  · unfold leave at hf'
    by_cases hat : sender' = sender
    · subst hat
      dsimp only at hf'
      rw [Function.update_self] at hf'
      cases hf'
    · dsimp only at hf'
      rw [Function.update_of_ne hat] at hf'
      obtain ⟨hsender', hmem', hphase'⟩ := h.flying sender' f' hf'
      refine ⟨hsender', hmem', hphase'.setTails fun hall t ht => ?_⟩
      rcases List.mem_cons.mp ht with rfl | ht
      · -- no two threads in flight have one key
        exact fun heq => absurd (hsender'.symm.trans (heq.symm.trans hsender)) hat
      · exact hall t ht
  · rcases List.mem_cons.mp ht with rfl | ht
    · exact ⟨hmem, hlit⟩
    · exact h.tails t ht

/-- Threads after their answers, of which each is one there was or has less to note. -/
theorem Sound.setTails {tails : List PollTail} (h : w.Sound)
    (hsub : ∀ t ∈ tails, ∃ t' ∈ w.tails, t.profile = t'.profile ∧ t.polled = t'.polled
      ∧ ∀ x ∈ t.lit, x ∈ t'.lit) : Sound { w with tails := tails } where
  server := ⟨h.server.nodup, h.server.top⟩
  past := ⟨h.past.partners, h.past.plain, h.past.home, h.past.mem, h.past.latest⟩
  seen := h.seen
  flying sender f hf := by
    obtain ⟨hsender, hmem, hphase⟩ := h.flying sender f hf
    refine ⟨hsender, hmem, hphase.setTails fun hall t ht => ?_⟩
    obtain ⟨t', ht', hprofile, -⟩ := hsub t ht
    exact hprofile ▸ hall t' ht'
  tails t ht := by
    obtain ⟨t', ht', hprofile, hpolled, hlit⟩ := hsub t ht
    rw [hprofile, hpolled]
    exact ⟨(h.tails t' ht').1, fun x hx => (h.tails t' ht').2 x (hlit x hx)⟩

theorem sound_eraseTail (h : w.Sound) (k : Nat) : Sound { w with tails := w.tails.eraseIdx k } :=
  h.setTails (fun t ht => ⟨t, List.mem_of_mem_eraseIdx ht, rfl, rfl, fun _ hx => hx⟩)

/-- A cursor is put that was reached from the position of each thread that is to start. -/
theorem Sound.setSeen (h : w.Sound) (hp : p ∈ w.past) (hd : d ∈ p.dialogs)
    (hv : w.Behind (p.place d.partner) d.seq v)
    (hstarting : ∀ p', w.flying p.sender = some ⟨p', .starting⟩ → Ahead p' p) :
    Sound { w with seen := Function.update w.seen (seenKey p.sender d.partner) (some v) } where
  server := ⟨h.server.nodup, h.server.top⟩
  past := ⟨h.past.partners, h.past.plain, h.past.home, h.past.mem, h.past.latest⟩
  seen key v' hv' := by
    by_cases hat : key = seenKey p.sender d.partner
    · subst hat
      dsimp only at hv'
      rw [Function.update_self] at hv'
      cases hv'
      exact ⟨p, hp, d, hd, rfl, hv⟩
    · dsimp only at hv'
      rw [Function.update_of_ne hat] at hv'
      exact h.seen key v' hv'
  flying sender f hf := by
    obtain ⟨hsender, hmem, hphase⟩ := h.flying sender f hf
    refine ⟨hsender, hmem, ?_⟩
    obtain ⟨p', phase⟩ := f
    cases phase with
    | starting =>
        refine ⟨fun d' hd' v' hv' => ?_, hphase.2⟩
        by_cases hat : seenKey p'.sender d'.partner = seenKey p.sender d.partner
        · dsimp only at hv'
          rw [hat, Function.update_self] at hv'
          cases hv'
          obtain ⟨heq, hpartner⟩ := seenKey_inj (h.past.plain p' hmem) (h.past.plain p hp) hat
          have hplace : p.place d.partner = p'.place d'.partner := by
            unfold ProfileHint.place
            rw [h.past.home p' hmem p hp heq.symm, heq, hpartner]
          have hle := hstarting p' (heq ▸ hsender ▸ hf) heq.symm d' hd' d hd hpartner.symm
          exact hplace ▸ hv.weaken hle
        · dsimp only at hv'
          rw [Function.update_of_ne hat] at hv'
          exact hphase.1 d' hd' v' hv'
    | asking polled => exact hphase
    | answered polled lit => exact hphase
  tails := h.tails

theorem sound_note {k : Nat} {x : String × Nat} {rest : List (String × Nat)} (h : w.Sound)
    (hk : w.tails[k]? = some ⟨p, polled, x :: rest⟩) :
    (w.note k ⟨p, polled, x :: rest⟩ x rest).Sound := by
  have ht := List.mem_of_getElem? hk
  obtain ⟨hmem, hlit⟩ := h.tails _ ht
  have hset : Sound { w with tails := w.tails.set k ⟨p, polled, rest⟩ } := by
    refine h.setTails (fun t ht' => ?_)
    rcases List.mem_or_eq_of_mem_set ht' with ht' | rfl
    · exact ⟨t, ht', rfl, rfl, fun _ hx => hx⟩
    · exact ⟨_, ht, rfl, rfl, fun _ hx => List.mem_cons_of_mem _ hx⟩
  unfold note
  dsimp only
  split
  · exact hset
  · obtain ⟨d, hd, hpartner, hbehind⟩ := hlit x List.mem_cons_self
    rw [← hpartner] at hbehind ⊢
    refine hset.setSeen hmem hd hbehind (fun p' hf => ?_)
    exact (h.flying _ _ hf).2.2.2 _ ht

/-! ## Every step -/

theorem flying_spawn_isSome (h : (w.flying sender).isSome = true) :
    ((w.spawnProfileLongPoll p).flying sender).isSome = true := by
  unfold spawnProfileLongPoll
  split
  · exact h
  · dsimp only
    by_cases hat : sender = p.sender
    · subst hat
      rw [Function.update_self]
      rfl
    · rw [Function.update_of_ne hat]
      exact h

theorem flying_spawn_self (w : PollWorld) (p : ProfileHint) :
    ((w.spawnProfileLongPoll p).flying p.sender).isSome = true := by
  unfold spawnProfileLongPoll
  split
  · assumption
  · dsimp only
    rw [Function.update_self]
    rfl

@[simp]
theorem snapshot_spawn (w : PollWorld) (p : ProfileHint) :
    (w.spawnProfileLongPoll p).snapshot = w.snapshot := by
  unfold spawnProfileLongPoll
  split <;> rfl

@[simp]
theorem tails_spawn (w : PollWorld) (p : ProfileHint) :
    (w.spawnProfileLongPoll p).tails = w.tails := by
  unfold spawnProfileLongPoll
  split <;> rfl

@[simp]
theorem launched_spawn (w : PollWorld) (p : ProfileHint) :
    (w.spawnProfileLongPoll p).launched = w.launched := by
  unfold spawnProfileLongPoll
  split <;> rfl

/-- A request is spawned for each profile of a list. -/
theorem sound_spawnAll {ps : List ProfileHint} (h : w.Sound) (hps : ∀ p ∈ ps, p ∈ w.snapshot) :
    (ps.foldl spawnProfileLongPoll w).Sound
    ∧ (ps.foldl spawnProfileLongPoll w).snapshot = w.snapshot
    ∧ (∀ sender, (w.flying sender).isSome = true →
        ((ps.foldl spawnProfileLongPoll w).flying sender).isSome = true)
    ∧ ∀ p ∈ ps, ((ps.foldl spawnProfileLongPoll w).flying p.sender).isSome = true := by
  induction ps generalizing w with
  | nil => exact ⟨h, rfl, fun _ hf => hf, fun _ hp => absurd hp List.not_mem_nil⟩
  | cons p ps ih =>
      obtain ⟨hsound, hsnap, hkeep, hall⟩ := ih (sound_spawn h (hps p List.mem_cons_self))
        (fun p' hp' => by
          rw [snapshot_spawn]
          exact hps p' (List.mem_cons_of_mem p hp'))
      rw [List.foldl_cons]
      refine ⟨hsound, hsnap.trans (snapshot_spawn w p),
        fun sender hf => hkeep sender (flying_spawn_isSome hf), fun p' hp' => ?_⟩
      rcases List.mem_cons.mp hp' with rfl | hp'
      · exact hkeep _ (flying_spawn_self w _)
      · exact hall p' hp'

theorem Sound.setLaunched (h : w.Sound) (launched : Bool) : Sound { w with launched := launched } where
  server := ⟨h.server.nodup, h.server.top⟩
  past := ⟨h.past.partners, h.past.plain, h.past.home, h.past.mem, h.past.latest⟩
  seen := h.seen
  flying sender f hf := by
    obtain ⟨hsender, hmem, hphase⟩ := h.flying sender f hf
    refine ⟨hsender, hmem, ?_⟩
    cases hcase : f.phase <;> exact hcase ▸ hphase
  tails := h.tails

theorem findProfile_mem (hfind : w.findProfile sender = some p) : p ∈ w.snapshot ∧ p.sender = sender :=
  ⟨List.mem_of_find?_eq_some hfind, of_decide_eq_true (List.find?_some hfind :)⟩

theorem sound_restart {k : Nat} {t : PollTail} (h : w.Sound) : (w.restart k t).Sound := by
  unfold restart
  dsimp only
  split
  · rename_i fresh hfind
    split
    · exact sound_eraseTail h k
    · exact sound_spawn (sound_eraseTail h k) (findProfile_mem hfind).1
  · exact sound_eraseTail h k

theorem sound_step (h : w.Sound) (hok : w.Undisturbed l) (hs : w.step l = some w') : w'.Sound := by
  cases l with
  | push place seq fromPartner => exact sound_push h hok hs
  | delete place seqs =>
      cases hs
      exact sound_delete h
  | updateLastSeq place seq =>
      cases hs
      exact sound_updateLastSeq h
  | handleSnapshotIntent raw =>
      cases hs
      exact sound_snapshot h hok
  | startMessageLongPolls =>
      cases hs
      exact (sound_spawnAll h (fun p hp => (List.mem_filter.mp hp).1)).1.setLaunched true
  | ask sender =>
      unfold step at hs
      dsimp only at hs
      split at hs
      · rename_i p hf
        cases hs
        exact sound_ask h hf
      · cases hs
  | answer sender unregistered =>
      unfold step at hs
      dsimp only at hs
      unfold Undisturbed at hok
      split at hs
      · rename_i p polled hf
        cases hs
        dsimp only at hok
        rw [hf] at hok
        exact sound_answer h hf hok
      · cases hs
  | fail sender =>
      unfold step at hs
      dsimp only at hs
      split at hs
      · rename_i p polled hf
        cases hs
        exact sound_leave h hf (fun x hx => absurd hx List.not_mem_nil)
      · cases hs
  | finish sender =>
      unfold step at hs
      dsimp only at hs
      split at hs
      · rename_i p polled lit hf
        cases hs
        exact sound_leave h hf (h.flying sender _ hf).2.2
      · cases hs
  | note k =>
      unfold step at hs
      dsimp only at hs
      split at hs
      · rename_i p polled x rest hk
        cases hs
        exact sound_note h hk
      · cases hs
  | restart k =>
      unfold step at hs
      dsimp only at hs
      split at hs
      · cases hs
        exact sound_restart h
      · cases hs
  | quit k =>
      unfold step at hs
      dsimp only at hs
      split at hs
      · split at hs
        · cases hs
          exact sound_eraseTail h k
        · cases hs
      · cases hs

/-! ## A request for every profile -/

/-- A user has a thread. -/
def Served (w : PollWorld) (sender : String) : Prop :=
  (w.flying sender).isSome = true ∨ ∃ t ∈ w.tails, t.profile.sender = sender

theorem Running.keep (h : w.Running) (hl : w'.launched = w.launched)
    (hsnap : w'.snapshot = w.snapshot)
    (hserved : ∀ p ∈ w.snapshot, w.Served p.sender → w'.Served p.sender) : w'.Running := by
  intro hlaunched p hp
  rw [hsnap] at hp
  exact hserved p hp (h (hl ▸ hlaunched) p hp)

theorem served_setPhase {f : PollFlight} {phase : FlightPhase} {sender' : String}
    (h : w.Served sender') : (w.setPhase sender f phase).Served sender' := by
  rcases h with hf | ht
  · refine .inl ?_
    unfold setPhase
    dsimp only
    by_cases hat : sender' = sender
    · subst hat
      rw [Function.update_self]
      rfl
    · rw [Function.update_of_ne hat]
      exact hf
  · exact .inr ht

theorem served_leave {t : PollTail} {sender' : String} (hsender : t.profile.sender = sender)
    (h : w.Served sender') : (w.leave sender t).Served sender' := by
  unfold leave
  by_cases hat : sender' = sender
  · exact .inr ⟨t, List.mem_cons_self, hsender.trans hat.symm⟩
  · rcases h with hf | ⟨t', ht', heq⟩
    · refine .inl ?_
      dsimp only
      rw [Function.update_of_ne hat]
      exact hf
    · exact .inr ⟨t', List.mem_cons_of_mem t ht', heq⟩

theorem served_setTail {k : Nat} {t : PollTail} (t' : PollTail) (hk : w.tails[k]? = some t)
    (heq : t'.profile = t.profile) (h : w.Served sender) :
    Served { w with tails := w.tails.set k t' } sender := by
  rcases h with hf | ⟨u, hu, husender⟩
  · exact .inl hf
  · obtain ⟨i, hi⟩ := List.mem_iff_getElem?.mp hu
    obtain ⟨hlt, -⟩ := List.getElem?_eq_some_iff.mp hk
    by_cases hik : k = i
    · subst hik
      rw [hk] at hi
      cases hi
      refine .inr ⟨t', List.mem_iff_getElem?.mpr ⟨k, ?_⟩, heq ▸ husender⟩
      exact List.getElem?_set_self hlt
    · refine .inr ⟨u, List.mem_iff_getElem?.mpr ⟨i, ?_⟩, husender⟩
      rw [List.getElem?_set_ne hik]
      exact hi

theorem served_note {k : Nat} {x : String × Nat} {rest : List (String × Nat)} {t : PollTail}
    (hk : w.tails[k]? = some t) (h : w.Served sender) : (w.note k t x rest).Served sender := by
  have hset := served_setTail { t with lit := rest } hk rfl h
  unfold note
  dsimp only
  split
  · exact hset
  · exact hset

/-- Who loses a thread is the thread's user. -/
theorem served_eraseTail {k : Nat} {t : PollTail} (hk : w.tails[k]? = some t) (h : w.Served sender)
    (hne : t.profile.sender ≠ sender) : Served { w with tails := w.tails.eraseIdx k } sender := by
  rcases h with hf | ⟨u, hu, husender⟩
  · exact .inl hf
  · obtain ⟨i, hi⟩ := List.mem_iff_getElem?.mp hu
    refine .inr ⟨u, List.mem_eraseIdx_iff_getElem?.mpr ⟨i, fun hik => hne ?_, hi⟩, husender⟩
    rw [hik, hk] at hi
    cases hi
    exact husender

theorem served_spawn (h : w.Served sender) : (w.spawnProfileLongPoll p).Served sender := by
  rcases h with hf | ht
  · exact .inl (flying_spawn_isSome hf)
  · exact .inr (by rwa [tails_spawn])

theorem running_restart {k : Nat} {t : PollTail} (h : w.Sound) (hr : w.Running)
    (hk : w.tails[k]? = some t) : (w.restart k t).Running := by
  refine hr.keep ?_ ?_ (fun p hp hserved => ?_)
  · unfold restart
    dsimp only
    split
    · split
      · rfl
      · rw [launched_spawn]
    · rfl
  · unfold restart
    dsimp only
    split
    · split
      · rfl
      · rw [snapshot_spawn]
    · rfl
  · by_cases hne : t.profile.sender = p.sender
    · -- the thread finds the profile, and starts its next request unless there is one
      unfold restart
      dsimp only
      split
      · rename_i fresh hfind
        obtain ⟨hmem, hsender⟩ := findProfile_mem hfind
        rw [if_neg (h.past.mem fresh hmem).2]
        exact .inl (hne ▸ hsender ▸ flying_spawn_self _ fresh)
      · rename_i hfind
        have := List.find?_eq_none.mp hfind p hp
        exact absurd (decide_eq_true hne.symm) this
    · have herase := served_eraseTail hk hserved hne
      unfold restart
      dsimp only
      split
      · split
        · exact herase
        · exact served_spawn herase
      · exact herase

theorem running_step (h : w.Sound) (hr : w.Running) (hs : w.step l = some w') : w'.Running := by
  cases l with
  | push place seq fromPartner =>
      unfold step at hs
      dsimp only at hs
      split at hs
      · cases hs
      · cases hs
        exact hr
  | delete place seqs =>
      cases hs
      exact hr
  | updateLastSeq place seq =>
      cases hs
      exact hr
  | handleSnapshotIntent raw =>
      cases hs
      exact fun hl => absurd hl Bool.false_ne_true
  | startMessageLongPolls =>
      cases hs
      intro _ p hp
      have hall := @sound_spawnAll w (w.snapshot.filter (fun p => p.dialogs ≠ [])) h
        (fun p hp => (List.mem_filter.mp hp).1)
      have hp : p ∈ w.snapshot := hall.2.1 ▸ hp
      exact .inl (hall.2.2.2 p (List.mem_filter.mpr ⟨hp, decide_eq_true (h.past.mem p hp).2⟩))
  | ask sender =>
      unfold step at hs
      dsimp only at hs
      split at hs
      · cases hs
        exact hr.keep rfl rfl (fun p _ hp => served_setPhase hp)
      · cases hs
  | answer sender unregistered =>
      unfold step at hs
      dsimp only at hs
      split at hs
      · rename_i p polled hf
        cases hs
        exact hr.keep rfl rfl (fun p' _ hp => served_setPhase (f := ⟨p, .asking polled⟩) hp)
      · cases hs
  | fail sender =>
      unfold step at hs
      dsimp only at hs
      split at hs
      · rename_i p polled hf
        cases hs
        exact hr.keep rfl rfl (fun p' _ hp => served_leave (h.flying sender _ hf).1 hp)
      · cases hs
  | finish sender =>
      unfold step at hs
      dsimp only at hs
      split at hs
      · rename_i p polled lit hf
        cases hs
        exact hr.keep rfl rfl (fun p' _ hp => served_leave (h.flying sender _ hf).1 hp)
      · cases hs
  | note k =>
      unfold step at hs
      dsimp only at hs
      split at hs
      · rename_i p polled x rest hk
        cases hs
        refine hr.keep ?_ ?_ (fun p' _ hp => served_note hk hp) <;>
          · unfold note
            dsimp only
            split <;> rfl
      · cases hs
  | restart k =>
      unfold step at hs
      dsimp only at hs
      split at hs
      · rename_i p polled hk
        cases hs
        exact running_restart h hr hk
      · cases hs
  | quit k =>
      unfold step at hs
      dsimp only at hs
      split at hs
      · split at hs
        · rename_i hempty
          cases hs
          intro _ p hp
          dsimp only at hp
          rw [hempty] at hp
          cases hp
        · cases hs
      · cases hs

/-! ## Every run -/

theorem le_foldr_max {seqs : List Nat} (h : s ∈ seqs) : s ≤ seqs.foldr max 0 := by
  induction seqs with
  | nil => cases h
  | cons n seqs ih =>
      rcases List.mem_cons.mp h with rfl | h
      · exact le_max_left _ _
      · exact (ih h).trans (le_max_right _ _)

theorem sound_init {packets : Place → List LivePacket}
    (hnodup : ∀ place, ((packets place).map LivePacket.seq).Nodup) (lastSeq : Place → Nat) :
    (init packets lastSeq).Sound where
  server := ⟨hnodup, fun place x hx => le_foldr_max (List.mem_map_of_mem hx)⟩
  past := by
    refine ⟨?_, ?_, ?_, ?_, ?_⟩ <;> exact fun p hp => absurd hp List.not_mem_nil
  seen key v hv := by cases hv
  flying sender f hf := by cases hf
  tails t ht := absurd ht List.not_mem_nil

theorem Sound.watches (h : w.Sound) (hr : w.Running) : w.Watches where
  below sender p polled hf d hd c hc s hs hlt := by
    obtain ⟨-, hmem, cursor, hpolled, hcursor⟩ := h.flying sender _ hf
    obtain ⟨d', hd', heq⟩ := List.mem_map.mp (hpolled ▸ hc)
    obtain ⟨hpartner, rfl⟩ := Prod.mk.inj heq
    cases List.inj_on_of_nodup_map (h.past.partners p hmem) hd' hd hpartner
    rcases hcursor d hd with hseq | hbehind
    · omega
    · exact hbehind.2 s hs hlt
  running hl p hp := by
    obtain ⟨hpast, -⟩ := h.past.mem p hp
    rcases hr hl p hp with hf | ⟨t, ht, hsender⟩
    · obtain ⟨f, hf⟩ := Option.isSome_iff_exists.mp hf
      obtain ⟨hsender, hmem, -⟩ := h.flying p.sender f hf
      exact .inl ⟨f, hf, hsender, h.past.home p hpast f.profile hmem hsender⟩
    · exact .inr ⟨t, ht, hsender, h.past.home p hpast t.profile (h.tails t ht).1 hsender⟩

/-- **Nothing is missed** in every run whose steps are undisturbed. -/
theorem nothing_missed {packets : Place → List LivePacket} {lastSeq : Place → Nat}
    (hnodup : ∀ place, ((packets place).map LivePacket.seq).Nodup)
    (hr : Lts.Reach step Undisturbed (init packets lastSeq) w) : w.Watches := by
  have h := Lts.Reach.invariant (P := fun w => w.Sound ∧ w.Running)
    ⟨sound_init hnodup lastSeq, fun hl => absurd hl Bool.false_ne_true⟩
    (fun _ _ _ _ h hok hs => ⟨sound_step h.1 hok hs, running_step h.1 h.2 hs⟩) hr
  exact h.1.watches h.2

/-! ## What is missed -/

section Example

/-- `alice` on a server, with one partner. -/
def aliceOn (server : String) (seq : Nat) : ProfileHint := ⟨server, "key", "alice", [⟨"bob", seq⟩]⟩

def bobAt (server : String) : Place := ⟨server, "alice", "bob"⟩

def quiet : PollWorld := init (fun _ => []) (fun _ => 0)

/-- Three packets on one server and one on the other, and the snapshot has `alice` on both. -/
def twoServersRun : List PollLabel :=
  [.push (bobAt "first") 1 true, .push (bobAt "first") 2 true, .push (bobAt "first") 3 true,
    .push (bobAt "second") 1 true, .handleSnapshotIntent [aliceOn "first" 0, aliceOn "second" 0],
    .startMessageLongPolls]

/-- The first request is answered, and then the snapshot names the other server first. -/
def sharedCursorRun : List PollLabel :=
  twoServersRun ++ [.ask "alice", .answer "alice" [], .finish "alice", .note 0,
    .handleSnapshotIntent [aliceOn "second" 0, aliceOn "first" 0], .restart 0, .ask "alice"]

/-- The position of the snapshot is taken back from `2` to `0`. -/
def takenBackRun : List PollLabel :=
  [.push (bobAt "first") 1 true, .push (bobAt "first") 2 true, .push (bobAt "first") 3 true,
    .handleSnapshotIntent [aliceOn "first" 2], .startMessageLongPolls, .ask "alice",
    .answer "alice" [], .finish "alice", .note 0, .handleSnapshotIntent [aliceOn "first" 0],
    .restart 0, .ask "alice"]

/-- The second profile has no request of its own; a request asks from a cursor that another server's
packets have moved past a packet that nobody counted; and so does one whose position was taken
back. -/
theorem packets_missed :
    (∃ w, Lts.exec step quiet twoServersRun = some w ∧ w.launched = true
      ∧ aliceOn "second" 0 ∈ w.snapshot ∧ w.tails = []
      ∧ (w.flying "alice").map (fun f => f.profile.server) = some "first")
    ∧ (∃ w, Lts.exec step quiet sharedCursorRun = some w
      ∧ w.flying "alice" = some ⟨aliceOn "second" 0, .asking [("bob", 3)]⟩
      ∧ 1 ∈ w.uncounted (bobAt "second"))
    ∧ ∃ w, Lts.exec step quiet takenBackRun = some w
      ∧ w.flying "alice" = some ⟨aliceOn "first" 0, .asking [("bob", 3)]⟩
      ∧ 1 ∈ w.uncounted (bobAt "first") :=
  ⟨⟨_, rfl, by decide⟩, ⟨_, rfl, by decide⟩, ⟨_, rfl, by decide⟩⟩

/-- One profile; two packets are counted, one more comes, and the snapshot moves on. -/
def steadyRun : List PollLabel :=
  [.push (bobAt "first") 2 true, .push (bobAt "first") 5 true,
    .handleSnapshotIntent [aliceOn "first" 0], .startMessageLongPolls, .ask "alice",
    .answer "alice" [], .finish "alice", .note 0, .push (bobAt "first") 6 true, .restart 0,
    .ask "alice", .handleSnapshotIntent [aliceOn "first" 5], .startMessageLongPolls,
    .push (bobAt "first") 7 true]

theorem nothing_missed_steadyRun :
    (Lts.execWhile step Undisturbed quiet steadyRun).isSome = true
    ∧ ((Lts.execWhile step Undisturbed quiet steadyRun).getD quiet).Watches :=
  have h : (Lts.execWhile step Undisturbed quiet steadyRun).isSome = true := by decide +kernel
  ⟨h, @nothing_missed _ (fun _ => []) (fun _ => 0) (fun _ => List.nodup_nil) (Lts.reach_getD h)⟩

end Example

end PollWorld

end Paranoia
