import Mathlib.Data.Bool.AllAny
import Paranoia.Server.Nginx

/-!
# What becomes of the configuration

The markers begin with `##`, and nothing between them has a `#`: so the block has each of them once,
and after it has been put into a configuration it is found there again. What is before the first
begin marker and behind the first end marker is kept, and a second time changes nothing.
-/

namespace Paranoia

namespace Nginx

variable {existing result after : List Char} {routes : List Route} {port : Nat} {r : Route}

/-! ## One route -/

theorem safe_of_mem_path (h : isSafePath r.path = true) {c : Char} (hc : c ∈ r.path) :
    c.isAlphanum = true ∨ c ∈ ['/', '_', '.', '-'] := by
  unfold isSafePath at h
  have hall := (Bool.and_eq_true_iff.mp h).2
  simpa using List.all_eq_true.mp hall c hc

/-- A character that means something in the configuration is in no path that is accepted. -/
theorem not_mem_path (h : isSafePath r.path = true) {c : Char}
    (hc : c ∈ ['#', '{', '}', ';', '\n', ' ', '"', '\'', '$', '\\']) : c ∉ r.path := by
  intro hmem
  have hall : ∀ c ∈ ['#', '{', '}', ';', '\n', ' ', '"', '\'', '$', '\\'],
      ¬ (c.isAlphanum = true ∨ c ∈ ['/', '_', '.', '-']) := List.all_iff_forall_prop.mp (by decide)
  exact hall c hc (safe_of_mem_path h hmem)

theorem not_mem_numeral {c : Char} (hc : c.isDigit = false) : c ∉ Decimal.numeral port :=
  fun hmem => Bool.false_ne_true (hc.symm.trans (Decimal.isDigit_of_mem_numeral hmem))

theorem not_mem_directives (port : Nat) {c : Char} (hc : c ∈ ['#', '{', '}']) : c ∉ directives port := by
  have hall : ∀ c ∈ ['#', '{', '}'], c.isDigit = false ∧ c ∉ proxyPass ∧ c ∉ proxySettings :=
    List.all_iff_forall_prop.mp (by decide)
  obtain ⟨hdigit, hpass, hsettings⟩ := hall c hc
  intro hmem
  rcases List.mem_append.mp hmem with hmem | hmem
  · rcases List.mem_append.mp hmem with hmem | hmem
    · exact hpass hmem
    · exact not_mem_numeral hdigit hmem
  · exact hsettings hmem

theorem not_mem_matcher (h : isSafePath r.path = true) {c : Char} (hc : c ∈ ['#', '{', '}']) :
    c ∉ matcher r := by
  have hpath : c ∉ r.path := not_mem_path h (by
    have hall : ∀ c ∈ ['#', '{', '}'], c ∈ ['#', '{', '}', ';', '\n', ' ', '"', '\'', '$', '\\'] :=
      List.all_iff_forall_prop.mp (by decide)
    exact hall c hc)
  unfold matcher
  rcases List.mem_cons.mp hc with rfl | hc
  · split <;> simp [hpath]
  · rcases List.mem_cons.mp hc with rfl | hc
    · split <;> simp [hpath]
    · obtain rfl := List.mem_singleton.mp hc
      split <;> simp [hpath]

/-- **One location.** What is rendered opens a block behind the path and closes it at the end, and
there is no other brace. -/
theorem renderRoute_eq (h : isSafePath r.path = true) :
    renderRoute port r = (matcher r ++ [' ']) ++ '{' :: (directives port ++ ['}', '\n'])
      ∧ ∀ c ∈ ['{', '}'], c ∉ matcher r ++ [' '] ∧ c ∉ directives port := by
  refine ⟨by simp [renderRoute], fun c hc => ?_⟩
  have hc' : c ∈ ['#', '{', '}'] := List.mem_cons_of_mem _ hc
  refine ⟨fun hmem => ?_, not_mem_directives _ hc'⟩
  rcases List.mem_append.mp hmem with hmem | hmem
  · exact not_mem_matcher h hc' hmem
  · obtain rfl := List.mem_singleton.mp hmem
    exact absurd hc (by decide)

theorem hash_not_mem_renderRoute (h : isSafePath r.path = true) : '#' ∉ renderRoute port r := by
  have hmatcher := not_mem_matcher h (c := '#') List.mem_cons_self
  have hdirectives := not_mem_directives port (c := '#') List.mem_cons_self
  unfold renderRoute
  simp [hmatcher, hdirectives]

/-! ## The block -/

/-- What is between the markers. -/
def locations (routes : List Route) (port : Nat) : List Char :=
  '\n' :: (routes.filter (fun r => isSafePath r.path)).flatMap (renderRoute port)

theorem renderBlock_eq :
    renderBlock routes port = beginMarker ++ locations routes port ++ endMarker ++ ['\n'] := rfl

/-- **The locations.** The block has one for every route with a safe path, and nothing else between
its markers. -/
theorem renderBlock_locations :
    renderBlock routes port
      = beginMarker ++ '\n' :: (routes.filter (fun r => isSafePath r.path)).flatMap (fun r =>
          (matcher r ++ [' ']) ++ '{' :: (directives port ++ ['}', '\n'])) ++ endMarker ++ ['\n'] := by
  have hroutes : (routes.filter (fun r => isSafePath r.path)).flatMap (renderRoute port)
      = (routes.filter (fun r => isSafePath r.path)).flatMap (fun r =>
          (matcher r ++ [' ']) ++ '{' :: (directives port ++ ['}', '\n'])) :=
    List.flatMap_congr fun r hr => (renderRoute_eq (List.mem_filter.mp hr).2).1
  unfold renderBlock
  rw [hroutes]

theorem hash_not_mem_locations : '#' ∉ locations routes port := by
  intro hmem
  rcases List.mem_cons.mp hmem with h | hmem
  · cases h
  · obtain ⟨r, hr, hmem⟩ := List.mem_flatMap.mp hmem
    exact hash_not_mem_renderRoute (List.mem_filter.mp hr).2 hmem

/-- Where the end marker of the block is. -/
def endPos (routes : List Route) (port : Nat) : Nat :=
  (beginMarker ++ locations routes port).length

theorem length_begin_lt_endPos (routes : List Route) (port : Nat) :
    beginMarker.length < endPos routes port := by
  unfold endPos locations
  rw [List.length_append, List.length_cons]
  omega

theorem begin_at_zero : beginMarker <+: renderBlock routes port := by
  rw [renderBlock_eq, List.append_assoc, List.append_assoc]
  exact List.prefix_append _ _

theorem end_at_endPos : endMarker <+: (renderBlock routes port).drop (endPos routes port) := by
  rw [renderBlock_eq, List.append_assoc, endPos, List.drop_left]
  exact List.prefix_append _ _

/-- A `#` of the block is one of the first two characters of a marker. -/
theorem hash_at {i : Nat} (h : (renderBlock routes port)[i]? = some '#') :
    i ≤ 1 ∨ i = endPos routes port ∨ i = endPos routes port + 1 := by
  have hbegin : ∀ i < beginMarker.length, beginMarker[i]? = some '#' → i ≤ 1 := by decide
  have hend : ∀ i < (endMarker ++ ['\n']).length, (endMarker ++ ['\n'])[i]? = some '#' → i ≤ 1 := by
    decide
  rw [renderBlock_eq, List.append_assoc] at h
  by_cases hi : i < endPos routes port
  · rw [List.getElem?_append_left hi] at h
    by_cases hb : i < beginMarker.length
    · rw [List.getElem?_append_left hb] at h
      exact .inl (hbegin i hb h)
    · rw [List.getElem?_append_right (Nat.le_of_not_lt hb)] at h
      exact absurd (List.mem_of_getElem? h) hash_not_mem_locations
  · have hi := Nat.le_of_not_lt hi
    rw [List.getElem?_append_right hi] at h
    have hlt := (List.getElem?_eq_some_iff.mp h).1
    have := hend _ hlt h
    unfold endPos at hi ⊢
    omega

/-- Two of them stand only at the beginning of a marker. -/
theorem two_hashes {i : Nat} (h : (renderBlock routes port)[i]? = some '#')
    (h' : (renderBlock routes port)[i + 1]? = some '#') : i = 0 ∨ i = endPos routes port := by
  have hlt := length_begin_lt_endPos routes port
  have hlong : 2 ≤ beginMarker.length := by decide
  rcases hash_at h with hi | hi | hi
  · rcases hash_at h' with hi' | hi' | hi'
    · exact .inl (by omega)
    · omega
    · omega
  · exact .inr hi
  · rcases hash_at h' with hi' | hi' | hi'
    · omega
    · omega
    · omega

/-- What begins with two of them and is in the block is at the beginning of a marker. -/
theorem marker_at {pat : List Char} (hpat : pat[0]? = some '#' ∧ pat[1]? = some '#') {i : Nat}
    (h : pat <+: (renderBlock routes port).drop i) : i = 0 ∨ i = endPos routes port := by
  have hlen : 1 < pat.length := (List.getElem?_eq_some_iff.mp hpat.2).1
  have h0 := Search.getElem?_of_prefix_drop h (Nat.lt_of_succ_lt hlen)
  have h1 := Search.getElem?_of_prefix_drop h hlen
  rw [hpat.1] at h0
  rw [hpat.2] at h1
  exact two_hashes h0 h1

theorem begin_hashes : beginMarker[0]? = some '#' ∧ beginMarker[1]? = some '#' := by decide

theorem end_hashes : endMarker[0]? = some '#' ∧ endMarker[1]? = some '#' := by decide

/-- The markers differ in their fourth character. -/
theorem not_both {text : List Char} {i : Nat} (hb : beginMarker <+: text.drop i)
    (he : endMarker <+: text.drop i) : False := by
  have h := (Search.getElem?_of_prefix_drop hb (k := 3) (by decide)).symm.trans
    (Search.getElem?_of_prefix_drop he (k := 3) (by decide))
  exact absurd h (by decide)

/-- **The block has each marker once.** -/
theorem begin_iff {i : Nat} : beginMarker <+: (renderBlock routes port).drop i ↔ i = 0 := by
  constructor
  · intro h
    rcases marker_at begin_hashes h with hi | rfl
    · exact hi
    · exact absurd end_at_endPos (fun he => not_both h he)
  · rintro rfl
    exact begin_at_zero

theorem end_iff {i : Nat} :
    endMarker <+: (renderBlock routes port).drop i ↔ i = endPos routes port := by
  constructor
  · intro h
    rcases marker_at end_hashes h with rfl | hi
    · exact absurd begin_at_zero (fun hb => not_both (i := 0) hb h)
    · exact hi
  · rintro rfl
    exact end_at_endPos

/-! ## Putting it in -/

theorem replaceManagedRegion_eq_ok {block : List Char}
    (h : replaceManagedRegion existing block = .ok result) :
    ∃ begin endMarkerPos, Search.find? beginMarker existing = some begin
      ∧ Search.find? endMarker existing = some endMarkerPos ∧ begin ≤ endMarkerPos
      ∧ result = existing.take begin ++ block
        ++ stripNewline (existing.drop (endMarkerPos + endMarker.length)) := by
  unfold replaceManagedRegion at h
  cases hb : Search.find? beginMarker existing with
  | none =>
      rw [hb] at h
      cases h
  | some begin =>
      cases he : Search.find? endMarker existing with
      | none =>
          rw [hb, he] at h
          cases h
      | some endMarkerPos =>
          rw [hb, he] at h
          dsimp only at h
          by_cases hlt : endMarkerPos < begin
          · rw [if_pos hlt] at h
            cases h
          · rw [if_neg hlt] at h
            cases h
            exact ⟨begin, endMarkerPos, rfl, rfl, Nat.le_of_not_lt hlt, rfl⟩

theorem take_append_renderBlock (pre : List Char) :
    pre ++ renderBlock routes port ++ after
      = (pre ++ beginMarker) ++ (locations routes port ++ (endMarker ++ ('\n' :: after))) := by
  simp [renderBlock_eq]

/-- A configuration up to its begin marker, and the rest. -/
theorem split_at_begin {begin : Nat} (hb : Search.find? beginMarker existing = some begin) :
    existing = (existing.take begin ++ beginMarker)
      ++ existing.drop (begin + beginMarker.length) := by
  obtain ⟨-, ⟨rest, hrest⟩, -⟩ := Search.find?_eq_some.mp hb
  rw [List.append_assoc, ← List.drop_drop, ← hrest, List.drop_left, hrest, List.take_append_drop]

/-- The begin marker is found where it was. -/
theorem find_begin {begin : Nat} (hb : Search.find? beginMarker existing = some begin) :
    Search.find? beginMarker (existing.take begin ++ renderBlock routes port ++ after)
      = some begin := by
  obtain ⟨hlen, hat, hfirst⟩ := Search.find?_eq_some.mp hb
  have htake : (existing.take begin).length = begin := List.length_take_of_le hlen
  refine Search.find?_eq_some.mpr ⟨?_, ?_, fun j hj hpre => ?_⟩
  · rw [List.length_append, List.length_append, htake]
    omega
  · rw [List.append_assoc, List.drop_append_of_le_length (Nat.le_of_eq htake.symm),
      List.drop_eq_nil_of_le (Nat.le_of_eq htake), List.nil_append]
    exact begin_at_zero.trans (List.prefix_append _ _)
  · -- it ends within what both texts begin with
    have hwithin : j + beginMarker.length ≤ (existing.take begin ++ beginMarker).length := by
      rw [List.length_append, htake]
      omega
    refine hfirst j hj ?_
    rw [split_at_begin hb, Search.prefix_drop_append hwithin]
    rwa [take_append_renderBlock, Search.prefix_drop_append hwithin] at hpre

/-- The end marker is found at the end of the block. -/
theorem find_end {begin endMarkerPos : Nat}
    (hb : Search.find? beginMarker existing = some begin)
    (he : Search.find? endMarker existing = some endMarkerPos) (hle : begin ≤ endMarkerPos) :
    Search.find? endMarker (existing.take begin ++ renderBlock routes port ++ after)
      = some (begin + endPos routes port) := by
  obtain ⟨hlen, -, -⟩ := Search.find?_eq_some.mp hb
  obtain ⟨-, -, hfirst⟩ := Search.find?_eq_some.mp he
  have htake : (existing.take begin).length = begin := List.length_take_of_le hlen
  have hshort : endMarker.length ≤ beginMarker.length := by decide
  have hdrop : ∀ k, (existing.take begin ++ renderBlock routes port ++ after).drop (begin + k)
      = (renderBlock routes port ++ after).drop k := by
    intro k
    rw [List.append_assoc, ← List.drop_drop,
      List.drop_append_of_le_length (Nat.le_of_eq htake.symm),
      List.drop_eq_nil_of_le (Nat.le_of_eq htake), List.nil_append]
  have hblock : (renderBlock routes port).length = endPos routes port + (endMarker.length + 1) := by
    rw [renderBlock_eq, List.append_assoc, List.length_append, endPos, List.length_append,
      List.length_append, List.length_singleton]
  refine Search.find?_eq_some.mpr ⟨?_, ?_, fun j hj hpre => ?_⟩
  · rw [List.length_append, List.length_append, htake, hblock]
    omega
  · rw [hdrop, Search.prefix_drop_append (by omega)]
    exact end_at_endPos
  · by_cases hbefore : j < begin
    · -- it would be in the configuration before the begin marker
      have hwithin : j + endMarker.length ≤ (existing.take begin ++ beginMarker).length := by
        rw [List.length_append, htake]
        omega
      refine hfirst j (Nat.lt_of_lt_of_le hbefore hle) ?_
      rw [split_at_begin hb, Search.prefix_drop_append hwithin]
      rwa [take_append_renderBlock, Search.prefix_drop_append hwithin] at hpre
    · -- it would be in the block before its end marker
      obtain ⟨k, rfl⟩ := Nat.exists_eq_add_of_le (Nat.le_of_not_lt hbefore)
      rw [hdrop, Search.prefix_drop_append (by omega)] at hpre
      have := end_iff.mp hpre
      omega

theorem replaceManagedRegion_again {begin endMarkerPos : Nat}
    (hb : Search.find? beginMarker existing = some begin)
    (he : Search.find? endMarker existing = some endMarkerPos) (hle : begin ≤ endMarkerPos) :
    replaceManagedRegion (existing.take begin ++ renderBlock routes port ++ after)
        (renderBlock routes port)
      = .ok (existing.take begin ++ renderBlock routes port ++ after) := by
  obtain ⟨hlen, -, -⟩ := Search.find?_eq_some.mp hb
  have htake : (existing.take begin).length = begin := List.length_take_of_le hlen
  have hsplit : existing.take begin ++ renderBlock routes port ++ after
      = (existing.take begin ++ (beginMarker ++ locations routes port) ++ endMarker)
        ++ '\n' :: after := by
    simp [renderBlock_eq]
  have hend : (existing.take begin ++ (beginMarker ++ locations routes port) ++ endMarker).length
      = begin + endPos routes port + endMarker.length := by
    rw [List.length_append, List.length_append, htake, endPos]
  have hpre : (existing.take begin ++ renderBlock routes port ++ after).take begin
      = existing.take begin := by
    rw [List.append_assoc, List.take_append_of_le_length (Nat.le_of_eq htake.symm), List.take_take,
      Nat.min_self]
  have hafter : (existing.take begin ++ renderBlock routes port ++ after).drop
      (begin + endPos routes port + endMarker.length) = '\n' :: after := by
    rw [hsplit, ← hend, List.drop_left]
  unfold replaceManagedRegion
  rw [find_begin hb, find_end hb he hle]
  dsimp only
  rw [if_neg (by omega), hpre, hafter]
  rfl

/-- **The managed region.** A configuration keeps what is before its begin marker and behind its end
marker, has the block between, and is not changed a second time; the block has each marker once, and
between them one location for each of its routes, with no brace but its own two. -/
theorem managed_region (existing : List Char) (routes : List Route) (port : Nat) :
    (∀ result, replaceManagedRegion existing (renderBlock routes port) = .ok result →
      (∃ begin endMarkerPos, Search.find? beginMarker existing = some begin
        ∧ Search.find? endMarker existing = some endMarkerPos ∧ begin ≤ endMarkerPos
        ∧ result = existing.take begin ++ renderBlock routes port
          ++ stripNewline (existing.drop (endMarkerPos + endMarker.length)))
      ∧ replaceManagedRegion result (renderBlock routes port) = .ok result)
    ∧ (∃ pos, ∀ i, (beginMarker <+: (renderBlock routes port).drop i ↔ i = 0)
      ∧ (endMarker <+: (renderBlock routes port).drop i ↔ i = pos))
    ∧ renderBlock routes port
      = beginMarker ++ '\n' :: (routes.filter (fun r => isSafePath r.path)).flatMap (fun r =>
          (matcher r ++ [' ']) ++ '{' :: (directives port ++ ['}', '\n'])) ++ endMarker ++ ['\n']
    ∧ ∀ r : Route, isSafePath r.path = true →
      ∀ c ∈ ['{', '}'], c ∉ matcher r ++ [' '] ∧ c ∉ directives port := by
  refine ⟨fun result h => ?_, ⟨endPos routes port, fun i => ⟨begin_iff, end_iff⟩⟩,
    renderBlock_locations, fun r hr => (@renderRoute_eq port r hr).2⟩
  obtain ⟨begin, endMarkerPos, hb, he, hle, rfl⟩ := replaceManagedRegion_eq_ok h
  exact ⟨⟨begin, endMarkerPos, hb, he, hle, rfl⟩, replaceManagedRegion_again hb he hle⟩

/-- A configuration with something before and behind its region. -/
def served : List Char := "server \x7b\n".toList ++ beginMarker ++ '\n' :: endMarker ++ "\n\x7d\n".toList

set_option maxRecDepth 2000 in
theorem managed_region_served :
    ∃ result, replaceManagedRegion served (renderBlock [⟨"/push".toList, true⟩] 8080) = .ok result
      ∧ replaceManagedRegion result (renderBlock [⟨"/push".toList, true⟩] 8080) = .ok result := by
  have hok : ∃ result, replaceManagedRegion served (renderBlock [⟨"/push".toList, true⟩] 8080)
      = .ok result := by
    have hb : Search.find? beginMarker served = some 9 := by decide
    have he : Search.find? endMarker served = some (9 + beginMarker.length + 1) := by decide
    unfold replaceManagedRegion
    rw [hb, he]
    exact ⟨_, if_neg (by omega)⟩
  obtain ⟨result, h⟩ := hok
  exact ⟨result, h, ((managed_region served [⟨"/push".toList, true⟩] 8080).1 result h).2⟩

end Nginx

end Paranoia
