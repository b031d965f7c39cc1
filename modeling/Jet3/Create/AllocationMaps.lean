import Jet3.Alloc.MapRoundTrip

/-!
# Allocation maps of a new file

A new file places every map row in a row of the fixed width. A set past the inline window gets
bitmap pages, which are numbered from `firstExtra` on and appended once everything else is placed.
Every slot up to the last one used has a bitmap page, so the used references are a prefix of the
row.

* `AllocationMaps.row` makes the row of a set;
* `row_ok_iff` says which sets have a row, and `row_loadsAs` that it loads as its set.
-/

namespace Jet3

open Outcome

/-- Why a file cannot be composed. -/
inductive ComposeError where
  | usageMap (source : UsageMapWriteError)
  | encoding (source : Error)
  | catalogPageLimit (maximum : ℕ)
  deriving DecidableEq, Repr

/-- The bitmap of an inline row of the fixed width. -/
def mapBitmapBytes : ℕ := 128

/-- The pages a row of references represents. -/
def pageLimit : ℕ := indirectReferenceSlots * extendedBitmapBits

/-- `check_page`. -/
def checkPageLimit (page : PageNumber) : Except ComposeError Unit :=
  refuseIf (page ≥ pageLimit) (.catalogPageLimit pageLimit)

/-- The bitmap pages placed so far, numbered from `firstExtra` on; without it no map may need
one. -/
structure AllocationMaps where
  firstExtra : Option ℕ
  extra : List ExtendedUsageMapEncoder

namespace AllocationMaps

/-- No bitmap pages yet; the first one goes to page `firstExtra`. -/
def new (firstExtra : ℕ) : AllocationMaps :=
  { firstExtra := some firstExtra, extra := [] }

/-- Places one more bitmap page; returns its position and its number. -/
def allocate (maps : AllocationMaps) (slot : ℕ) :
    Except ComposeError (AllocationMaps × ℕ × PageNumber) := do
  let first ← okOr maps.firstExtra (.catalogPageLimit (mapBitmapBytes * 8))
  let number := first + maps.extra.length
  refuseIf (¬number < 2 ^ 64) (.encoding (.arithmetic "place creation bitmap"))
  checkPageLimit number
  let encoder ← (ExtendedUsageMapEncoder.new slot).mapError .usageMap
  return ({ maps with extra := maps.extra ++ [encoder] }, maps.extra.length, number)

/-- The state of the loop of `row`: the position of each slot's bitmap page, and the references. -/
structure RowState where
  maps : AllocationMaps
  positions : List (Option ℕ)
  refs : List PageNumber

/-- Places the bitmap page of slot `previous` unless it has one. -/
def placePrevious (state : RowState) (previous : ℕ) : Except ComposeError RowState :=
  match state.positions[previous]? with
  | some none => do
    let (maps, position, number) ← state.maps.allocate previous
    return { maps, positions := state.positions.set previous (some position)
             refs := state.refs.set previous number }
  | _ => return state

/-- Sets a bit of the bitmap page at `position`. -/
def setMember (maps : AllocationMaps) (position : ℕ) (page : PageNumber) :
    Except ComposeError AllocationMaps :=
  match maps.extra[position]? with
  | some encoder => do
    let encoder ← (encoder.setPage page).mapError .usageMap
    return { maps with extra := maps.extra.set position encoder }
  -- not reached: a position is that of a placed bitmap page
  | none => return maps

/-- One iteration over the pages of a set. -/
def addPage (state : RowState) (page : PageNumber) : Except ComposeError RowState := do
  let slot := page / extendedBitmapBits
  let state ← (List.range (slot + 1)).foldlM placePrevious state
  match state.positions[slot]?.join with
  | some position =>
    let maps ← state.maps.setMember position page
    return { state with maps }
  -- not reached: the slot of the page has just been placed
  | none => return state

/-- `row`: the row of a set, with the bitmap pages it needs. -/
def row (maps : AllocationMaps) (pages : List PageNumber) :
    Except ComposeError (List UInt8 × AllocationMaps) :=
  if UsageMap.highest pages < mapBitmapBytes * 8 then do
    let row ← (UsageMap.inlineRow pages).mapError .usageMap
    return (row, maps)
  else do
    checkPageLimit (UsageMap.highest pages)
    let state ← pages.foldlM addPage
      { maps, positions := List.replicate indirectReferenceSlots none
        refs := List.replicate indirectReferenceSlots 0 }
    let row ← (encodeIndirectReferences state.refs UsageMap.emptyRow).mapError .usageMap
    return (row, state.maps)

/-! ## The loop over the pages -/

/-- A bitmap page is given out behind those before it. -/
theorem allocate_ok_iff {maps : AllocationMaps} {slot : ℕ}
    {result : AllocationMaps × ℕ × PageNumber}
    {first : ℕ} (hfirst : maps.firstExtra = some first) :
    maps.allocate slot = .ok result ↔ first + maps.extra.length < pageLimit ∧ ∃ encoder,
      ExtendedUsageMapEncoder.new slot = .ok encoder ∧
        result = ({ maps with extra := maps.extra ++ [encoder] }, maps.extra.length,
          first + maps.extra.length) := by
  have hlimit : pageLimit < 2 ^ 64 := by decide
  simp only [allocate, hfirst, bind_ok_iff, exists_unit, okOr_ok_iff, Option.some.injEq,
    refuseIf_ok_iff, not_not, checkPageLimit, ge_iff_le, not_le, mapError_ok_iff, pure_ok_iff]
  constructor
  · rintro ⟨_, rfl, -, hinside, encoder, hnew, rfl⟩
    exact ⟨hinside, encoder, hnew, rfl⟩
  · rintro ⟨hinside, encoder, hnew, rfl⟩
    exact ⟨_, rfl, hinside.trans hlimit, hinside, encoder, hnew, rfl⟩

/-- The state of the loop once the pages `done` are placed: the slots up to the last one used have a
bitmap page each, placed one after the other behind `before`. -/
structure Placed (first : ℕ) (before : List ExtendedUsageMapEncoder) (done : List PageNumber)
    (encoders : List ExtendedUsageMapEncoder) (state : RowState) : Prop where
  maps_eq : state.maps = { firstExtra := some first, extra := before ++ encoders }
  positions_eq : state.positions = (List.range' before.length encoders.length).map some ++
    List.replicate (indirectReferenceSlots - encoders.length) none
  refs_eq : state.refs = consecutiveReferences (first + before.length) encoders.length
  length_le : encoders.length ≤ indirectReferenceSlots
  filled : ∀ slot encoder, encoders[slot]? = some encoder → FilledFor slot done encoder
  covers : ∀ page ∈ done, page / extendedBitmapBits < encoders.length
  inside : ∀ slot < encoders.length, first + before.length + slot < pageLimit

variable {first : ℕ} {before encoders : List ExtendedUsageMapEncoder} {done : List PageNumber}
  {state : RowState}

/-- A slot that has its bitmap page is passed over. -/
theorem Placed.placePrevious_placed (h : Placed first before done encoders state) {slot : ℕ}
    (hslot : slot < encoders.length) : placePrevious state slot = .ok state := by
  have hposition : state.positions[slot]? = some (some (before.length + slot)) := by
    rw [h.positions_eq, List.getElem?_append_left (by simpa using hslot), List.getElem?_map,
      List.getElem?_eq_getElem (by simpa using hslot), List.getElem_range', Nat.one_mul]
    rfl
  rw [placePrevious, hposition]
  rfl

/-- The positions after one more slot was placed. -/
theorem set_positions {base count : ℕ} (h : count < indirectReferenceSlots) :
    ((List.range' base count).map some ++
        List.replicate (indirectReferenceSlots - count) none).set count (some (base + count)) =
      (List.range' base (count + 1)).map some ++
        List.replicate (indirectReferenceSlots - (count + 1)) none := by
  have hleft : indirectReferenceSlots - count = indirectReferenceSlots - (count + 1) + 1 := by omega
  rw [List.set_append_right _ _ (by simp), List.length_map, List.length_range', Nat.sub_self, hleft,
    List.replicate_succ, List.set_cons_zero, List.range'_concat, Nat.one_mul, List.map_append,
    List.append_assoc]
  rfl

/-- The next slot gets a bitmap page exactly where the number of that page is within the limit. -/
theorem Placed.placePrevious_next (h : Placed first before done encoders state)
    (hslot : encoders.length < indirectReferenceSlots) {next : RowState} :
    placePrevious state encoders.length = .ok next ↔
      first + before.length + encoders.length < pageLimit ∧ ∃ encoder,
        ExtendedUsageMapEncoder.new encoders.length = .ok encoder ∧
          next =
            { maps := { firstExtra := some first, extra := before ++ (encoders ++ [encoder]) }
              positions := state.positions.set encoders.length
                (some (before.length + encoders.length))
              refs := state.refs.set encoders.length
                (first + before.length + encoders.length) } := by
  have hposition : state.positions[encoders.length]? = some none := by
    rw [h.positions_eq, List.getElem?_append_right (by simp), List.getElem?_replicate,
      if_pos (by simp; omega)]
  have hfirst : firstExtra { firstExtra := some first, extra := before ++ encoders } = some first :=
    rfl
  rw [placePrevious, hposition, h.maps_eq]
  simp only [bind_ok_iff, allocate_ok_iff hfirst, pure_ok_iff, List.length_append, ← Nat.add_assoc,
    List.append_assoc]
  constructor
  · rintro ⟨_, ⟨hinside, encoder, hnew, rfl⟩, rfl⟩
    exact ⟨hinside, encoder, hnew, rfl⟩
  · rintro ⟨hinside, encoder, hnew, rfl⟩
    exact ⟨_, ⟨hinside, encoder, hnew, rfl⟩, rfl⟩

/-- One more slot with its bitmap page. -/
theorem Placed.snoc (h : Placed first before done encoders state)
    (hslot : encoders.length < indirectReferenceSlots)
    (hinside : first + before.length + encoders.length < pageLimit)
    {encoder : ExtendedUsageMapEncoder}
    (hnew : ExtendedUsageMapEncoder.new encoders.length = .ok encoder) :
    Placed first before done (encoders ++ [encoder])
      { maps := { firstExtra := some first, extra := before ++ (encoders ++ [encoder]) }
        positions := state.positions.set encoders.length (some (before.length + encoders.length))
        refs := state.refs.set encoders.length (first + before.length + encoders.length) } := by
  have hwidth : encoders.length * extendedBitmapBits < 2 ^ 64 :=
    lt_of_lt_of_le (Nat.mul_lt_mul_of_pos_right hslot (by decide)) (by decide)
  obtain ⟨encoder', hnew', hempty⟩ := filledFor_new hwidth
  cases hnew.symm.trans hnew'
  constructor
  · rfl
  · rw [h.positions_eq, set_positions hslot, List.length_append, List.length_singleton]
  · rw [h.refs_eq, set_consecutiveReferences hslot, List.length_append, List.length_singleton]
  · rwa [List.length_append]
  · intro slot other hother
    -- an old slot, or the new one, which no page has used yet
    rcases Nat.lt_or_ge slot encoders.length with hlt | hge
    · rw [List.getElem?_append_left hlt] at hother
      exact h.filled slot other hother
    · rw [List.getElem?_append_right hge, List.getElem?_singleton] at hother
      split at hother
      · cases hother
        obtain rfl : slot = encoders.length := by omega
        exact hempty.of_empty fun page hpage => Nat.ne_of_lt (h.covers page hpage)
      · cases hother
  · intro page hpage
    rw [List.length_append]
    exact Nat.lt_add_right _ (h.covers page hpage)
  · intro slot hlt
    rw [List.length_append, List.length_singleton] at hlt
    rcases Nat.lt_succ_iff_lt_or_eq.mp hlt with hlt | rfl
    · exact h.inside slot hlt
    · exact hinside

/-- The loop over the slots up to that of a page gives every one of them its bitmap page. -/
theorem Placed.placeSlots (h : Placed first before done encoders state) (count : ℕ)
    (hcount : count ≤ indirectReferenceSlots) {next : RowState}
    (hok : (List.range count).foldlM placePrevious state = .ok next) :
    ∃ more, Placed first before done (encoders ++ more) next ∧ count ≤
      (encoders ++ more).length := by
  induction count generalizing next with
  | zero =>
    rw [List.range_zero, List.foldlM_nil, pure_ok_iff] at hok
    subst hok
    exact ⟨[], by simpa using h, Nat.zero_le _⟩
  | succ count ih =>
    rw [List.range_succ, List.foldlM_append] at hok
    simp only [bind_ok_iff, List.foldlM_cons, List.foldlM_nil, pure_ok_iff] at hok
    obtain ⟨middle, hmiddle, _, hstep, rfl⟩ := hok
    obtain ⟨more, hplaced, hle⟩ := ih (by omega) hmiddle
    rcases Nat.lt_or_ge count (encoders ++ more).length with hlt | hge
    · rw [hplaced.placePrevious_placed hlt] at hstep
      cases hstep
      exact ⟨more, hplaced, hlt⟩
    · obtain rfl : count = (encoders ++ more).length := Nat.le_antisymm hle hge
      obtain ⟨hinside, encoder, hnew, rfl⟩ := (hplaced.placePrevious_next hcount).mp hstep
      refine ⟨more ++ [encoder], ?_, ?_⟩
      · rw [← List.append_assoc]
        exact hplaced.snoc hcount hinside hnew
      · simp only [List.length_append, List.length_singleton]
        omega

/-- The loop succeeds where the bitmap pages it places are within the limit. -/
theorem Placed.exists_placeSlots (h : Placed first before done encoders state) (count : ℕ)
    (hcount : count ≤ indirectReferenceSlots)
    (hinside : ∀ slot < count, first + before.length + slot < pageLimit) :
    ∃ next, (List.range count).foldlM placePrevious state = .ok next := by
  induction count with
  | zero => exact ⟨state, rfl⟩
  | succ count ih =>
    obtain ⟨middle, hmiddle⟩ := ih (by omega) fun slot hslot => hinside slot (by omega)
    obtain ⟨more, hplaced, hle⟩ := h.placeSlots count (by omega) hmiddle
    rw [List.range_succ, List.foldlM_append]
    simp only [bind_ok_iff, List.foldlM_cons, List.foldlM_nil, pure_ok_iff]
    rcases Nat.lt_or_ge count (encoders ++ more).length with hlt | hge
    · exact ⟨_, middle, hmiddle, _, hplaced.placePrevious_placed hlt, rfl⟩
    · obtain rfl : count = (encoders ++ more).length := Nat.le_antisymm hle hge
      have hwidth : (encoders ++ more).length * extendedBitmapBits < 2 ^ 64 :=
        lt_of_lt_of_le (Nat.mul_lt_mul_of_pos_right hcount (by decide)) (by decide)
      obtain ⟨encoder, hnew, -⟩ := filledFor_new hwidth
      exact ⟨_, middle, hmiddle, _, (hplaced.placePrevious_next hcount).mpr
        ⟨hinside _ (Nat.lt_succ_self _), encoder, hnew, rfl⟩, rfl⟩

/-- The bit of a page whose slot has its bitmap page is set there. -/
theorem Placed.setMember_ok (h : Placed first before done encoders state) {page : PageNumber}
    (hslot : page / extendedBitmapBits < encoders.length) :
    ∃ position maps, state.positions[page / extendedBitmapBits]?.join = some position ∧
      state.maps.setMember position page = .ok maps ∧ ∃ encoder,
        Placed first before (done ++ [page]) (encoders.set (page / extendedBitmapBits) encoder)
          { state with maps } := by
  generalize hpage : page / extendedBitmapBits = slot at hslot
  obtain ⟨encoder, hset, hfilled⟩ :=
    (h.filled slot _ (List.getElem?_eq_getElem hslot)).setPage hpage
  -- the encoder of the slot stands behind those of the maps before
  have hextra : (before ++ encoders)[before.length + slot]? = some encoders[slot] := by
    rw [List.getElem?_append_right (Nat.le_add_right _ _), Nat.add_sub_cancel_left,
      List.getElem?_eq_getElem hslot]
  have hupdated : (before ++ encoders).set (before.length + slot) encoder =
      before ++ encoders.set slot encoder := by
    rw [List.set_append_right _ _ (Nat.le_add_right _ _), Nat.add_sub_cancel_left]
  refine ⟨before.length + slot,
    { firstExtra := some first, extra := before ++ encoders.set slot encoder }, ?_, ?_, encoder, ?_⟩
  · rw [h.positions_eq, List.getElem?_append_left (by simpa using hslot), List.getElem?_map,
      List.getElem?_eq_getElem (by simpa using hslot), List.getElem_range', Nat.one_mul]
    rfl
  · rw [AllocationMaps.setMember, h.maps_eq]
    simp only [hextra, bind_ok_iff, mapError_ok_iff, pure_ok_iff]
    exact ⟨encoder, hset, by rw [hupdated]⟩
  · -- the page is in its own encoder, and the other encoders stay
    constructor
    · rfl
    · rw [List.length_set]
      exact h.positions_eq
    · rw [List.length_set]
      exact h.refs_eq
    · rw [List.length_set]
      exact h.length_le
    · intro n other hother
      by_cases hn : slot = n
      · subst hn
        rw [List.getElem?_set_self hslot] at hother
        cases hother
        exact hfilled
      · rw [List.getElem?_set_ne hn] at hother
        exact (h.filled n other hother).other (by rwa [hpage])
    · rw [List.length_set]
      intro member hmember
      rcases List.mem_append.mp hmember with hbefore | hself
      · exact h.covers member hbefore
      · rw [List.mem_singleton.mp hself, hpage]
        exact hslot
    · rw [List.length_set]
      exact h.inside

/-- A page below the limit has a slot. -/
theorem slot_lt_of_lt_pageLimit {page : PageNumber} (h : page < pageLimit) :
    page / extendedBitmapBits < indirectReferenceSlots :=
  Nat.div_lt_of_lt_mul (by rwa [Nat.mul_comm])

/-- One iteration places one more page of the set. -/
theorem Placed.addPage_ok (h : Placed first before done encoders state) {page : PageNumber}
    (hpage : page < pageLimit) {next : RowState} (hok : addPage state page = .ok next) :
    ∃ encoders', Placed first before (done ++ [page]) encoders' next := by
  simp only [AllocationMaps.addPage, bind_ok_iff] at hok
  obtain ⟨middle, hmiddle, hok⟩ := hok
  obtain ⟨more, hplaced, hle⟩ := h.placeSlots _ (slot_lt_of_lt_pageLimit hpage) hmiddle
  obtain ⟨position, maps, hposition, hset, encoder, hnext⟩ := hplaced.setMember_ok hle
  simp only [hposition, bind_ok_iff, hset, pure_ok_iff] at hok
  obtain ⟨_, ⟨⟩, rfl⟩ := hok
  exact ⟨_, hnext⟩

/-- An iteration succeeds where the bitmap pages up to that of its page are within the limit. -/
theorem Placed.exists_addPage (h : Placed first before done encoders state) {page : PageNumber}
    (hpage : page < pageLimit)
    (hinside : first + before.length + page / extendedBitmapBits < pageLimit) :
    ∃ next, addPage state page = .ok next := by
  have hcount := slot_lt_of_lt_pageLimit hpage
  obtain ⟨middle, hmiddle⟩ := h.exists_placeSlots _ hcount fun slot hslot => by omega
  obtain ⟨more, hplaced, hle⟩ := h.placeSlots _ hcount hmiddle
  obtain ⟨position, maps, hposition, hset, -⟩ := hplaced.setMember_ok hle
  refine ⟨{ middle with maps }, ?_⟩
  simp only [AllocationMaps.addPage, bind_ok_iff]
  refine ⟨middle, hmiddle, ?_⟩
  simp only [hposition, bind_ok_iff, hset, pure_ok_iff]
  exact ⟨maps, rfl, rfl⟩

/-! ## The row of a set -/

/-- The loop starts with no slot placed. -/
theorem placed_start (first : ℕ) (before : List ExtendedUsageMapEncoder) :
    Placed first before [] []
      { maps := { firstExtra := some first, extra := before }
        positions := List.replicate indirectReferenceSlots none
        refs := List.replicate indirectReferenceSlots 0 } where
  maps_eq := by rw [List.append_nil]
  positions_eq := rfl
  refs_eq := rfl
  length_le := Nat.zero_le _
  filled := by simp
  covers := by simp
  inside := by simp

/-- The loop over the pages of a set gives their slots bitmap pages with exactly their bits. -/
theorem addPages_ok {pages : List PageNumber} {state : RowState}
    (hpages : ∀ page ∈ pages, page < pageLimit)
    (hok : pages.foldlM addPage
      { maps := { firstExtra := some first, extra := before }
        positions := List.replicate indirectReferenceSlots none
        refs := List.replicate indirectReferenceSlots 0 } = .ok state) :
    ∃ encoders, Placed first before pages encoders state := by
  refine foldlM_ok_induction (fun done state => ∃ encoders, Placed first before done encoders state)
    ⟨[], placed_start first before⟩ ?_ hok
  rintro done page rest state next hsplit ⟨encoders, hplaced⟩ hstep
  exact hplaced.addPage_ok (hpages page (by rw [hsplit]; simp)) hstep

/-- The loop succeeds where the bitmap pages up to that of the highest page are within the limit. -/
theorem exists_addPages {pages : List PageNumber} (hpages : ∀ page ∈ pages, page < pageLimit)
    (hinside : ∀ page ∈ pages, first + before.length + page / extendedBitmapBits < pageLimit) :
    ∃ state, pages.foldlM addPage
      { maps := { firstExtra := some first, extra := before }
        positions := List.replicate indirectReferenceSlots none
        refs := List.replicate indirectReferenceSlots 0 } = .ok state := by
  obtain ⟨state, hstate, -⟩ := exists_foldlM_ok
    (f := addPage) (l := pages)
      (fun done state => ∃ encoders, Placed first before done encoders state)
    ⟨[], placed_start first before⟩ fun done page rest state hsplit ⟨encoders, hplaced⟩ => by
      have hmem : page ∈ pages := by
        rw [hsplit]
        simp
      obtain ⟨next, hnext⟩ := hplaced.exists_addPage (hpages page hmem) (hinside page hmem)
      exact ⟨next, hnext, hplaced.addPage_ok (hpages page hmem) hnext⟩
  exact ⟨state, hstate⟩

/-- A set past the inline window has a highest page. -/
theorem highest_mem_of_large {pages : List PageNumber}
    (h : ¬UsageMap.highest pages < mapBitmapBytes * 8) : UsageMap.highest pages ∈ pages :=
  UsageMap.highest_mem fun hzero => h (by rw [hzero]; decide)

/-- Page numbers within the limit fit their references. -/
theorem width_of_inside {base count page : ℕ} (hused : page < count)
    (hinside : ∀ slot < count, base + slot < pageLimit) : base + count ≤ 2 ^ 32 := by
  have hlast := hinside (count - 1) (by omega)
  have hbound : pageLimit < 2 ^ 32 := by decide
  omega

/-- A row past the inline window refers to the bitmap pages placed for it. -/
theorem row_ok {maps maps' : AllocationMaps} {pages : List PageNumber} {row : List UInt8}
    (hfirst : maps.firstExtra = some first) (hlarge : ¬UsageMap.highest pages < mapBitmapBytes * 8)
    (h : maps.row pages = .ok (row, maps')) :
    ∃ encoders, SlotBitmaps encoders pages ∧ encoders.length ≤ indirectReferenceSlots ∧
      (∀ slot < encoders.length, first + maps.extra.length + slot < pageLimit) ∧
      row = indirectRecordType ::
        (consecutiveReferences (first + maps.extra.length) encoders.length).flatMap (leBytes 4) ∧
      maps' = { maps with extra := maps.extra ++ encoders } := by
  obtain ⟨firstExtra, extra⟩ := maps
  obtain rfl : firstExtra = some first := hfirst
  simp only [AllocationMaps.row, if_neg hlarge, bind_ok_iff, exists_unit, checkPageLimit,
    refuseIf_ok_iff, ge_iff_le, not_le, mapError_ok_iff, pure_ok_iff, Prod.mk.injEq] at h
  obtain ⟨hlimit, state, hstate, _, hrow, rfl, rfl⟩ := h
  have hpages : ∀ page ∈ pages, page < pageLimit := fun page hpage =>
    lt_of_le_of_lt (UsageMap.le_highest hpage) hlimit
  obtain ⟨encoders, hplaced⟩ := addPages_ok hpages hstate
  -- the highest page has a bitmap page, so there is a last one
  have hused := hplaced.covers _ (highest_mem_of_large hlarge)
  have hwidth := width_of_inside hused hplaced.inside
  rw [hplaced.refs_eq, encode_consecutiveReferences hplaced.length_le hwidth] at hrow
  exact ⟨encoders, .of_filled hplaced.filled hplaced.covers, hplaced.length_le, hplaced.inside,
    (Except.ok.inj hrow).symm, hplaced.maps_eq⟩

/-- The row of a set within the inline window. -/
theorem row_inline {maps : AllocationMaps} {pages : List PageNumber}
    (hsmall : UsageMap.highest pages < mapBitmapBytes * 8) :
    ∃ bitmap, maps.row pages = .ok (inlineRecordType :: leBytes 4 0 ++ bitmap, maps) ∧
      ∀ page, Bitmap.test bitmap page = true ↔ page ∈ pages := by
  obtain ⟨bitmap, hrow, -, hmembers⟩ := UsageMap.inlineRow_eq hsmall
  refine ⟨bitmap, ?_, hmembers⟩
  simp only [AllocationMaps.row, if_pos hsmall, bind_ok_iff, mapError_ok_iff, pure_ok_iff]
  exact ⟨_, hrow, rfl⟩

/-- A set has a row exactly when it fits the inline window, or it and the bitmap pages it needs are
within the limit. -/
theorem row_ok_iff {maps : AllocationMaps} {pages : List PageNumber}
    (hfirst : maps.firstExtra = some first) :
    (∃ result, maps.row pages = .ok result) ↔
      UsageMap.highest pages < mapBitmapBytes * 8 ∨
        UsageMap.highest pages < pageLimit ∧
          first + maps.extra.length + UsageMap.highest pages / extendedBitmapBits < pageLimit := by
  by_cases hsmall : UsageMap.highest pages < mapBitmapBytes * 8
  · obtain ⟨bitmap, hrow, -⟩ := row_inline hsmall
    exact ⟨fun _ => .inl hsmall, fun _ => ⟨_, hrow⟩⟩
  · constructor
    · -- a row that was written has a slot for its highest page
      rintro ⟨⟨row, maps'⟩, hrow⟩
      obtain ⟨encoders, hbitmaps, hslots, hinside, -, -⟩ := row_ok hfirst hsmall hrow
      have hmem := highest_mem_of_large hsmall
      have hslot := hbitmaps.covers _ hmem
      refine .inr ⟨?_, hinside _ hslot⟩
      calc
        UsageMap.highest pages <
            (UsageMap.highest pages / extendedBitmapBits + 1) * extendedBitmapBits := by
          rw [Nat.mul_comm]
          exact Nat.lt_mul_div_succ _ (by decide)
        _ ≤ pageLimit := Nat.mul_le_mul_right _ (hslot.trans_le hslots)
    · rintro (hinline | ⟨hlimit, hinside⟩)
      · exact absurd hinline hsmall
      -- every page is at most the highest one, so all of them can be added
      have hpages : ∀ page ∈ pages, page < pageLimit := fun page hpage =>
        lt_of_le_of_lt (UsageMap.le_highest hpage) hlimit
      have hbitmaps : ∀ page ∈ pages,
          first + maps.extra.length + page / extendedBitmapBits < pageLimit := fun page hpage =>
        lt_of_le_of_lt (Nat.add_le_add_left
          (Nat.div_le_div_right (UsageMap.le_highest hpage)) _) hinside
      obtain ⟨firstExtra, extra⟩ := maps
      obtain rfl : firstExtra = some first := hfirst
      obtain ⟨state, hstate⟩ := exists_addPages hpages hbitmaps
      obtain ⟨encoders, hplaced⟩ := addPages_ok hpages hstate
      have hused := hplaced.covers _ (highest_mem_of_large hsmall)
      have hencoded := encode_consecutiveReferences hplaced.length_le
        (width_of_inside hused hplaced.inside)
      rw [← hplaced.refs_eq] at hencoded
      refine ⟨(indirectRecordType :: state.refs.flatMap (leBytes 4), state.maps), ?_⟩
      simp only [AllocationMaps.row, if_neg hsmall, bind_ok_iff, exists_unit, checkPageLimit,
        refuseIf_ok_iff, ge_iff_le, not_le, mapError_ok_iff, pure_ok_iff]
      exact ⟨hlimit, state, hstate, _, hencoded, rfl⟩

/-- A row keeps the bitmap pages placed before it. -/
theorem row_extra {maps maps' : AllocationMaps} {pages : List PageNumber} {row : List UInt8}
    (hfirst : maps.firstExtra = some first) (h : maps.row pages = .ok (row, maps')) :
    maps.extra <+: maps'.extra := by
  by_cases hsmall : UsageMap.highest pages < mapBitmapBytes * 8
  · obtain ⟨bitmap, hinline, -⟩ := @row_inline maps _ hsmall
    cases hinline.symm.trans h
    exact List.prefix_rfl
  · obtain ⟨encoders, -, -, -, -, rfl⟩ := row_ok hfirst hsmall h
    exact List.prefix_append _ _

/-- The row of a set loads as that set, in every file that holds the row before the bitmap pages and
these where they are numbered. -/
theorem row_loadsAs {maps maps' : AllocationMaps} {pages : List PageNumber} {row : List UInt8}
    (hfirst : maps.firstExtra = some first) (h : maps.row pages = .ok (row, maps'))
    {file : PageFile} {locator : MapRowLocator} (hrow : HoldsRow file locator row)
    (hlocator : locator.page < first)
    (hstored : ∀ n, maps.extra.length ≤ n → n < maps'.extra.length →
      file[first + n]? = maps'.extra[n]?.map ExtendedUsageMapEncoder.image) :
    LoadsAs file locator pages := by
  by_cases hsmall : UsageMap.highest pages < mapBitmapBytes * 8
  · obtain ⟨bitmap, hinline, hmembers⟩ := @row_inline maps _ hsmall
    cases hinline.symm.trans h
    exact loadsAs_inline hrow hmembers
  · obtain ⟨encoders, hbitmaps, hslots, hinside, rfl, rfl⟩ := row_ok hfirst hsmall h
    dsimp only at hstored
    have hused := hbitmaps.covers _ (highest_mem_of_large hsmall)
    have hpos : 0 < first := Nat.zero_lt_of_lt hlocator
    refine loadsAs_consecutive hbitmaps hrow hslots (fun slot hslot => ?_) (Nat.add_pos_left hpos _)
      (width_of_inside hused hinside) (.inl (Nat.lt_add_right _ hlocator))
    rw [Nat.add_assoc, hstored _ (by omega) (by rw [List.length_append]; omega),
      List.getElem?_append_right (by omega), Nat.add_sub_cancel_left]

end AllocationMaps

end Jet3
