import Jet3.Alloc.MapBits

/-!
# The pages of a loaded map

A loaded map stands for the pages its set bits name. `MapBits.pages` lists them span by span; on a
map whose spans follow each other (`Spaced`) the list ascends strictly, and `contains` and
`existingPages` are its membership test and its listing.

`load` only returns maps of this form: `LoadedSlots` says what the spans of an indirect map are.
-/

namespace Jet3

open Outcome

/-- The pages the set bits of a span name. -/
def BitSpan.pages (span : BitSpan) : List PageNumber :=
  (Bitmap.members span.bytes).map (span.first + ·)

/-- A span lists the pages whose bits are set. -/
theorem BitSpan.mem_pages {span : BitSpan} {page : PageNumber} :
    page ∈ span.pages ↔
      span.first ≤ page ∧ Bitmap.test span.bytes (page - span.first) = true := by
  rw [BitSpan.pages, List.mem_map]
  constructor
  · rintro ⟨n, hn, rfl⟩
    rw [Nat.add_sub_cancel_left]
    exact ⟨Nat.le_add_right _ _, Bitmap.mem_members.mp hn⟩
  · rintro ⟨hfirst, htest⟩
    exact ⟨_, Bitmap.mem_members.mpr htest, Nat.add_sub_cancel' hfirst⟩

/-- The pages of a span lie in the stretch its bitmap represents. -/
theorem BitSpan.lt_of_mem_pages {span : BitSpan} {page : PageNumber} (h : page ∈ span.pages) :
    page < span.first + 8 * span.bytes.length := by
  obtain ⟨n, hn, rfl⟩ := List.mem_map.mp h
  exact Nat.add_lt_add_left (Bitmap.lt_of_mem_members hn) _

namespace MapBits

/-- The pages of a map, span by span. -/
def pages (map : MapBits) : List PageNumber :=
  map.spans.flatMap BitSpan.pages

/-! ## Listing the pages -/

/-- One set bit of the scan: a page inside the file is listed, one past its end is passed over where
`allowFuture` says so. -/
def listPage (pageCount : ℕ) (allowFuture : Bool) (listed : List PageNumber) (page : PageNumber) :
    Except WriteError (List PageNumber) := do
  refuseIf (¬page < 2 ^ 64) (.mismatch "allocation map page number")
  if page ≥ pageCount then
    refuseIf (allowFuture = false) (.mismatch "owned page outside file")
    return listed
  else return listed ++ [page]

/-- The pages listed by one byte of a bitmap. -/
def listByte (pageCount : ℕ) (allowFuture : Bool) (first : PageNumber) (listed : List PageNumber)
    (entry : UInt8 × ℕ) : Except WriteError (List PageNumber) :=
  (List.range 8).foldlM
    (fun listed bit =>
      if Bitmap.byteTest entry.1 bit = true then
        listPage pageCount allowFuture listed (first + (entry.2 * 8 + bit))
      else return listed) listed

/-- The pages listed by the bytes of one span. -/
def listSpan (pageCount : ℕ) (allowFuture : Bool) (listed : List PageNumber) (span : BitSpan) :
    Except WriteError (List PageNumber) :=
  span.bytes.zipIdx.foldlM (listByte pageCount allowFuture span.first) listed

/-- `existing_pages`. -/
def existingPages (map : MapBits) (pageCount : ℕ) (allowFuture : Bool) :
    Except WriteError (List PageNumber) :=
  map.spans.foldlM (listSpan pageCount allowFuture) []

/-- The scan of one byte visits the pages of its set bits. -/
theorem listByte_eq {pageCount : ℕ} {allowFuture : Bool} {first : PageNumber}
    {listed : List PageNumber} {byte : UInt8} {index : ℕ} :
    listByte pageCount allowFuture first listed (byte, index) =
      (((List.range 8).filter (Bitmap.byteTest byte)).map (first + 8 * index + ·)).foldlM
        (listPage pageCount allowFuture) listed := by
  rw [List.foldlM_map, List.foldlM_filter, listByte]
  congr 1
  funext listed bit
  rw [Nat.mul_comm index 8, Nat.add_assoc]

/-- The scan of a span visits its pages in order. -/
theorem listBytes_eq {pageCount : ℕ} {allowFuture : Bool} {first : PageNumber}
    {bytes : List UInt8} {listed : List PageNumber} (index : ℕ) :
    (bytes.zipIdx index).foldlM (listByte pageCount allowFuture first) listed =
      ((Bitmap.members bytes).map (first + 8 * index + ·)).foldlM (listPage pageCount allowFuture)
        listed := by
  induction bytes generalizing listed index with
  | nil => rfl
  | cons byte bytes ih =>
    have hshift : (first + 8 * index + ·) ∘ (8 + ·) = (first + 8 * (index + 1) + ·) := by
      funext n
      show first + 8 * index + (8 + n) = first + 8 * (index + 1) + n
      rw [Nat.mul_succ, ← Nat.add_assoc, ← Nat.add_assoc]
    rw [List.zipIdx_cons, List.foldlM_cons, listByte_eq, Bitmap.members_cons, List.map_append,
      List.map_map, hshift, List.foldlM_append]
    congr 1
    funext listed
    exact ih (index + 1)

/-- The scan of a map visits its pages in order. -/
theorem existingPages_eq {map : MapBits} {pageCount : ℕ} {allowFuture : Bool} :
    map.existingPages pageCount allowFuture =
      map.pages.foldlM (listPage pageCount allowFuture) [] := by
  have hspans : ∀ (spans : List BitSpan) (listed : List PageNumber),
      spans.foldlM (listSpan pageCount allowFuture) listed =
        (spans.flatMap BitSpan.pages).foldlM (listPage pageCount allowFuture) listed := by
    intro spans
    induction spans with
    | nil => exact fun _ => rfl
    | cons span spans ih =>
      intro listed
      rw [List.foldlM_cons, List.flatMap_cons, List.foldlM_append, listSpan, listBytes_eq 0]
      simp only [ih]
      rfl
  exact hspans map.spans []

/-- Pages outside the file are left out where future pages are allowed, and refused otherwise. -/
theorem listPage_ok_iff {pageCount : ℕ} {allowFuture : Bool} {listed listed' : List PageNumber}
    {page : PageNumber} :
    listPage pageCount allowFuture listed page = .ok listed' ↔
      page < 2 ^ 64 ∧ (allowFuture = false → page < pageCount) ∧
        listed' = listed ++ [page].filter (· < pageCount) := by
  simp only [listPage, bind_ok_iff, exists_unit, refuseIf_ok_iff, not_not]
  refine and_congr_right fun _ => ?_
  by_cases hpage : page < pageCount
  · rw [if_neg (Nat.not_le.mpr hpage), pure_ok_iff]
    simp [hpage, eq_comm]
  · rw [if_pos (Nat.not_lt.mp hpage)]
    simp only [bind_ok_iff, exists_unit, refuseIf_ok_iff, pure_ok_iff]
    simp [hpage, eq_comm]

/-- A map is listed exactly when every page it names can be told apart and, unless future pages are
allowed, lies inside the file; the pages listed are those inside the file. -/
theorem existingPages_ok_iff {map : MapBits} {pageCount : ℕ} {allowFuture : Bool}
    {listed : List PageNumber} :
    map.existingPages pageCount allowFuture = .ok listed ↔
      (∀ page ∈ map.pages, page < 2 ^ 64 ∧ (allowFuture = false → page < pageCount)) ∧
        listed = map.pages.filter (· < pageCount) := by
  rw [existingPages_eq]
  -- over the pages that are left, behind those listed before
  have key : ∀ (pages before listed : List PageNumber),
      pages.foldlM (listPage pageCount allowFuture) before = .ok listed ↔
        (∀ page ∈ pages, page < 2 ^ 64 ∧ (allowFuture = false → page < pageCount)) ∧
          listed = before ++ pages.filter (· < pageCount) := by
    intro pages
    induction pages with
    | nil =>
      intro before listed
      rw [List.foldlM_nil, pure_ok_iff]
      simp [eq_comm]
    | cons page pages ih =>
      intro before listed
      simp only [List.foldlM_cons, bind_ok_iff, listPage_ok_iff, ih, List.forall_mem_cons]
      constructor
      · rintro ⟨_, ⟨hwidth, hinside, rfl⟩, hrest, rfl⟩
        refine ⟨⟨⟨hwidth, hinside⟩, hrest⟩, ?_⟩
        rw [List.append_assoc, ← List.filter_append, List.singleton_append]
      · rintro ⟨⟨⟨hwidth, hinside⟩, hrest⟩, rfl⟩
        refine ⟨_, ⟨hwidth, hinside, rfl⟩, hrest, ?_⟩
        rw [List.append_assoc, ← List.filter_append, List.singleton_append]
  simpa using key map.pages [] listed

/-! ## Maps whose spans follow each other -/

/-- Each span starts at or after the end of the ones before it. -/
def Spaced (map : MapBits) : Prop :=
  map.spans.Pairwise fun span other => span.first + 8 * span.bytes.length ≤ other.first

/-- The pages of a spaced map ascend strictly. -/
theorem Spaced.pairwise_pages {map : MapBits} (h : map.Spaced) : map.pages.Pairwise (· < ·) := by
  rw [pages, List.pairwise_flatMap]
  constructor
  · intro span _
    rw [BitSpan.pages, List.pairwise_map]
    exact (Bitmap.pairwise_members span.bytes).imp fun hlt => Nat.add_lt_add_left hlt _
  · refine h.imp fun {span other} hspaced page hpage otherPage hother => ?_
    calc
      page < span.first + 8 * span.bytes.length := BitSpan.lt_of_mem_pages hpage
      _ ≤ other.first := hspaced
      _ ≤ otherPage := (BitSpan.mem_pages.mp hother).1

/-- The span a page would lie in is one of the map that starts at or before it. -/
theorem Spaced.of_spanOf {map : MapBits} {page : PageNumber} {span : BitSpan} (h : map.Spaced)
    (hspan : map.spanOf page = some span) : span ∈ map.spans ∧ span.first ≤ page := by
  have hdown : map.spans.Pairwise fun span other : BitSpan =>
      decide (other.first ≤ page) = true → decide (span.first ≤ page) = true := by
    refine List.Pairwise.imp (fun {span other} hspaced hother => ?_) h
    rw [decide_eq_true_iff] at hother ⊢
    exact le_trans (le_trans (Nat.le_add_right _ _) hspaced) hother
  obtain ⟨front, back, hsplit, hfront, -, hpoint⟩ := Search.exists_split _ hdown
  simp only [spanOf, hpoint] at hspan
  split at hspan
  · cases hspan
  · rename_i hpos
    have hlt : front.length - 1 < front.length := by omega
    rw [hsplit, List.getElem?_append_left hlt] at hspan
    have hmem := List.mem_of_getElem? hspan
    exact ⟨by simp [hsplit, hmem], by simpa using hfront span hmem⟩

/-- A page in the stretch of a span lies in that span. -/
theorem Spaced.spanOf_eq {map : MapBits} {page : PageNumber} {span : BitSpan} (h : map.Spaced)
    (hmem : span ∈ map.spans) (hfirst : span.first ≤ page)
    (hlast : page < span.first + 8 * span.bytes.length) : map.spanOf page = some span := by
  obtain ⟨front, back, hsplit⟩ := List.append_of_mem hmem
  unfold Spaced at h
  rw [hsplit, List.pairwise_append, List.pairwise_cons] at h
  obtain ⟨-, ⟨hback, -⟩, hfront⟩ := h
  -- exactly the spans up to this one start at or before the page
  have hpoint : Search.partitionPoint (fun span => decide (span.first ≤ page)) map.spans =
      (front ++ [span]).length := by
    rw [hsplit, List.append_cons]
    apply Search.partitionPoint_append
    · intro other hother
      rw [decide_eq_true_iff]
      rcases List.mem_append.mp hother with hbefore | hself
      · exact le_trans (le_trans (Nat.le_add_right _ _) (hfront other hbefore span (by simp)))
          hfirst
      · rw [List.mem_singleton.mp hself]
        exact hfirst
    · intro other hother
      rw [decide_eq_false_iff_not, not_le]
      exact lt_of_lt_of_le hlast (hback other hother)
  simp only [spanOf, hpoint]
  rw [List.length_append, List.length_singleton, if_neg (Nat.succ_ne_zero _), Nat.add_sub_cancel,
    hsplit, List.getElem?_append_right le_rfl, Nat.sub_self, List.getElem?_cons_zero]

/-- On a spaced map `contains` is membership in the pages. -/
theorem Spaced.contains_iff {map : MapBits} {page : PageNumber} (h : map.Spaced) :
    map.contains page = true ↔ page ∈ map.pages := by
  rw [pages, List.mem_flatMap]
  constructor
  · intro hcontains
    unfold contains at hcontains
    split at hcontains
    · cases hcontains
    · rename_i span hspan
      obtain ⟨hmem, hfirst⟩ := h.of_spanOf hspan
      dsimp only at hcontains
      split at hcontains
      · cases hcontains
      · exact ⟨span, hmem, BitSpan.mem_pages.mpr ⟨hfirst, hcontains⟩⟩
  · rintro ⟨span, hmem, hpage⟩
    -- the span of a page is found by its number
    have hlast := BitSpan.lt_of_mem_pages hpage
    obtain ⟨hfirst, htest⟩ := BitSpan.mem_pages.mp hpage
    have hbyte : ¬(page - span.first) / 8 ≥ span.bytes.length := by
      intro hge
      rw [Bitmap.test_of_length_le hge] at htest
      cases htest
    simp only [contains, h.spanOf_eq hmem hfirst hlast, if_neg hbyte, htest]

/-! ## What loading guarantees -/

/-- Slot `slot` of an indirect record refers to the bitmap page `span` is loaded from. -/
structure LoadedSlot (file : PageFile) (raw : List UInt8) (slot : ℕ) (span : BitSpan) : Prop where
  reference_eq : reference raw slot = span.page
  page_ne : span.page ≠ 0
  first_eq : span.first = slot * extendedBitmapBits
  offset_eq : span.offset = extendedBitmapOffset
  bitmap : ∃ image, file[span.page]? = some image ∧ image.slice 0 4 = extendedHeader ∧
    span.bytes = image.slice extendedBitmapOffset pageBytes

/-- The first `count` slots of an indirect record are loaded as `spans`: the slots up to the last
used one have a span each, and the others are empty. -/
structure LoadedSlots (file : PageFile) (locator : MapRowLocator) (raw : List UInt8) (count : ℕ)
    (spans : List BitSpan) : Prop where
  slot : ∀ slot span, spans[slot]? = some span → LoadedSlot file raw slot span
  length_le : spans.length ≤ count
  empty : ∀ slot, spans.length ≤ slot → slot < count → reference raw slot = 0
  distinct : (locator.page :: spans.map BitSpan.page).Nodup

/-- A bitmap page has the bits of one slot. -/
theorem LoadedSlot.length_bytes {file : PageFile} {raw : List UInt8} {slot : ℕ} {span : BitSpan}
    (h : LoadedSlot file raw slot span) : 8 * span.bytes.length = extendedBitmapBits := by
  obtain ⟨image, -, -, hbytes⟩ := h.bitmap
  rw [hbytes, Block.length_slice]
  rfl

/-- One more empty slot. -/
theorem LoadedSlots.snoc_empty {file : PageFile} {locator : MapRowLocator} {raw : List UInt8}
    {count : ℕ} {spans : List BitSpan} (h : LoadedSlots file locator raw count spans)
    (hreference : reference raw count = 0) : LoadedSlots file locator raw (count + 1) spans where
  slot := h.slot
  length_le := Nat.le_succ_of_le h.length_le
  empty slot hle hslot := by
    rcases Nat.lt_succ_iff_lt_or_eq.mp hslot with hlt | rfl
    · exact h.empty slot hle hlt
    · exact hreference
  distinct := h.distinct

/-- One more used slot, where all before it are used. -/
theorem LoadedSlots.snoc {file : PageFile} {locator : MapRowLocator} {raw : List UInt8}
    {count : ℕ} {spans : List BitSpan} {span : BitSpan}
    (h : LoadedSlots file locator raw count spans) (hlength : spans.length = count)
    (hspan : LoadedSlot file raw count span)
    (hfresh : span.page ∉ locator.page :: spans.map BitSpan.page) :
    LoadedSlots file locator raw (count + 1) (spans ++ [span]) where
  slot slot other hother := by
    rcases Nat.lt_or_ge slot spans.length with hlt | hge
    · rw [List.getElem?_append_left hlt] at hother
      exact h.slot slot other hother
    · rw [List.getElem?_append_right hge, List.getElem?_singleton] at hother
      split at hother
      · cases hother
        obtain rfl : slot = count := by omega
        exact hspan
      · cases hother
  length_le := by simp [hlength]
  empty slot hle hslot := by
    rw [List.length_append, List.length_singleton] at hle
    omega
  distinct := by
    rw [List.map_append, List.map_singleton, ← List.cons_append, List.nodup_append]
    exact ⟨h.distinct, by simp, fun page hpage other hother heq => by
      rw [List.mem_singleton.mp hother] at heq
      exact hfresh (heq ▸ hpage)⟩

/-- The slots before the last one used. -/
theorem LoadedSlots.of_snoc {file : PageFile} {locator : MapRowLocator} {raw : List UInt8}
    {count : ℕ} {spans : List BitSpan} {span : BitSpan}
    (h : LoadedSlots file locator raw (count + 1) (spans ++ [span]))
    (hfull : count + 1 ≤ (spans ++ [span]).length) :
    LoadedSlots file locator raw count spans ∧ spans.length = count ∧
      LoadedSlot file raw count span ∧ span.page ∉ locator.page :: spans.map BitSpan.page := by
  have hlength : spans.length = count := by
    have hle := h.length_le
    rw [List.length_append, List.length_singleton] at hle hfull
    omega
  have hdistinct := h.distinct
  rw [List.map_append, List.map_singleton, ← List.cons_append, List.nodup_append] at hdistinct
  refine ⟨⟨fun slot other hother =>
    h.slot slot other ?_, hlength.le, fun slot hle hslot => by omega,
    hdistinct.1⟩, hlength, h.slot count span ?_, fun hmem => ?_⟩
  · rw [List.getElem?_append_left (List.getElem?_eq_some_iff.mp hother).1, hother]
  · rw [← hlength, List.getElem?_append_right le_rfl, Nat.sub_self, List.getElem?_cons_zero]
  · exact hdistinct.2.2 _ hmem _ (List.mem_singleton_self _) rfl

/-- Slots follow each other, each as long as a bitmap page. -/
theorem LoadedSlots.spaced {file : PageFile} {locator : MapRowLocator} {raw : List UInt8}
    {count : ℕ}
    {spans : List BitSpan} (h : LoadedSlots file locator raw count spans) :
    spans.Pairwise fun span other => span.first + 8 * span.bytes.length ≤ other.first := by
  rw [List.pairwise_iff_getElem]
  intro i j hi hj hij
  have hspan := h.slot i _ (List.getElem?_eq_getElem hi)
  have hother := h.slot j _ (List.getElem?_eq_getElem hj)
  rw [hspan.length_bytes, hspan.first_eq, hother.first_eq, ← Nat.succ_mul]
  exact Nat.mul_le_mul_right _ hij

/-- The header of a bitmap page makes it one, anywhere but at page zero. -/
theorem kind_of_extendedHeader {number : PageNumber} {image : Page} (hnumber : number ≠ 0)
    (h : image.slice 0 4 = extendedHeader) : classifyPage number image = .extendedUsageBitmap := by
  rw [classifyPage_eq_iff hnumber (by simp) (by simp)]
  have htag : (image.slice 0 4).getD 0 0 = image.get 0 := Block.getD_slice image (by decide)
  rw [h] at htag
  exact htag.symm

/-- A reference of zero adds no span. -/
theorem loadReference_empty {file : PageFile} {locator : MapRowLocator} {raw : List UInt8}
    {spans : List BitSpan} {slot : ℕ} {zeroSeen : Bool} (h : reference raw slot = 0) :
    loadReference file locator raw (zeroSeen, spans) slot = .ok (true, spans) := by
  simp only [loadReference, h, ↓reduceIte]
  rfl

/-- A used slot is loaded exactly where no slot before it is empty and its page is a bitmap page not
seen before. -/
theorem loadReference_ok_iff {file : PageFile} {locator : MapRowLocator} {raw : List UInt8}
    {spans : List BitSpan} {slot : ℕ} {zeroSeen : Bool} {state : Bool × List BitSpan}
    (h : reference raw slot ≠ 0) :
    loadReference file locator raw (zeroSeen, spans) slot = .ok state ↔
      zeroSeen = false ∧ reference raw slot ∉ locator.page :: spans.map BitSpan.page ∧
        ∃ span, LoadedSlot file raw slot span ∧ state = (false, spans ++ [span]) := by
  simp only [loadReference, if_neg h, bind_ok_iff, exists_unit, refuseIf_ok_iff, pure_ok_iff,
    WriteError.ofDefinition_ok_iff, mapError_ok_iff, PageFile.readClassifiedPage_ok_iff,
    Bool.not_eq_true, List.mem_cons, List.mem_map, not_or, not_exists, not_and, ne_eq, not_not]
  refine and_congr_right fun _ => and_congr_right fun _ => ?_
  constructor
  · rintro ⟨_, ⟨image, himage, rfl⟩, ⟨-, hheader⟩, rfl⟩
    exact ⟨_, ⟨rfl, h, rfl, rfl, image, himage, hheader, rfl⟩, rfl⟩
  · rintro ⟨⟨first, page, offset, bytes⟩,
      ⟨hreference, hpage, hfirst, hoffset, image, himage, hheader,
      hbytes⟩, rfl⟩
    dsimp only at hreference hpage hfirst hoffset himage hbytes
    subst hreference hfirst hoffset hbytes
    exact ⟨_, ⟨image, himage, rfl⟩, ⟨kind_of_extendedHeader h hheader, hheader⟩, rfl⟩

/-- The references of an indirect record are loaded exactly when they are a run of used slots and
then empty ones. -/
theorem loadReferences_ok_iff {file : PageFile} {locator : MapRowLocator} {raw : List UInt8}
    (count : ℕ) {state : Bool × List BitSpan} :
    (List.range count).foldlM (loadReference file locator raw) (false, []) = .ok state ↔
      LoadedSlots file locator raw count state.2 ∧
        state.1 = decide (state.2.length < count) := by
  induction count generalizing state with
  | zero =>
    obtain ⟨zeroSeen, spans⟩ := state
    rw [List.range_zero, List.foldlM_nil, pure_ok_iff, Prod.mk.injEq]
    constructor
    · rintro ⟨rfl, rfl⟩
      exact ⟨⟨by simp, by simp, by simp, by simp⟩, rfl⟩
    · rintro ⟨hslots, hzero⟩
      exact ⟨hzero.symm, (List.length_eq_zero_iff.mp (Nat.le_zero.mp hslots.length_le)).symm⟩
  | succ count ih =>
    rw [List.range_succ, List.foldlM_append]
    simp only [bind_ok_iff, List.foldlM_cons, List.foldlM_nil, pure_ok_iff, ih]
    constructor
    · -- one slot more is empty, or it is used and no slot before it is empty
      rintro ⟨⟨zeroSeen, spans⟩, ⟨hslots, hzero⟩, _, hstep, rfl⟩
      dsimp only at hslots hzero hstep
      by_cases hreference : reference raw count = 0
      · rw [loadReference_empty hreference, Except.ok.injEq] at hstep
        subst hstep
        have hle := hslots.length_le
        refine ⟨hslots.snoc_empty hreference, ?_⟩
        dsimp only
        rw [decide_eq_true (by omega : spans.length < count + 1)]
      · obtain ⟨hfull, hfresh, span, hspan, rfl⟩ := (loadReference_ok_iff hreference).mp hstep
        rw [hzero, decide_eq_false_iff_not] at hfull
        have hlength : spans.length = count := Nat.le_antisymm hslots.length_le (not_lt.mp hfull)
        refine ⟨hslots.snoc hlength hspan (hspan.reference_eq ▸ hfresh), ?_⟩
        simp [hlength]
    · obtain ⟨zeroSeen, spans⟩ := state
      rintro ⟨hslots, hzero⟩
      dsimp only at hslots hzero
      rcases Nat.lt_or_ge spans.length (count + 1) with hlt | hge
      · -- the last slot is empty
        have hreference := hslots.empty count (by omega) (by omega)
        have hbefore : LoadedSlots file locator raw count spans :=
          ⟨hslots.slot, by omega, fun slot hle hslot => hslots.empty slot hle (by omega),
            hslots.distinct⟩
        refine ⟨(decide (spans.length < count), spans), ⟨hbefore, rfl⟩, _,
          loadReference_empty hreference, ?_⟩
        rw [hzero, decide_eq_true hlt]
      · -- the last slot is the last one used
        obtain ⟨front, span, rfl⟩ := List.eq_nil_or_concat' spans |>.resolve_left fun hnil => by
          rw [hnil] at hge
          exact absurd hge (by simp)
        obtain ⟨hfront, hlength, hspan, hfresh⟩ := hslots.of_snoc hge
        refine ⟨(false, front), ⟨hfront, by simp [hlength]⟩, _,
          (loadReference_ok_iff ?_).mpr ⟨rfl, ?_, span, hspan, rfl⟩, ?_⟩
        · rw [hspan.reference_eq]
          exact hspan.page_ne
        · rw [hspan.reference_eq]
          exact hfresh
        · rw [hzero, decide_eq_false (not_lt.mpr hge)]

/-- The spans of an inline record: one, over the bytes after its header. -/
theorem loadSpans_inline {file : PageFile} {locator : MapRowLocator} {record : UsageMapRecord}
    {startPage : PageNumber} {spans : List BitSpan} :
    loadSpans file locator record
        (.inline startPage { start := inlineHeaderLen, stop := record.raw.length }) = .ok spans ↔
      spans = [{ first := startPage, page := locator.page
                 offset := record.range.start + inlineHeaderLen
                 bytes := record.raw.drop inlineHeaderLen }] := by
  have htake : (record.raw.drop inlineHeaderLen).take (record.raw.length - inlineHeaderLen) =
      record.raw.drop inlineHeaderLen := List.take_of_length_le (by simp)
  rw [loadSpans, pure_ok_iff, eq_comm]
  simp only [Range.len, htake]

/-- The spans of an indirect record of the full width. -/
theorem loadSpans_indirect {file : PageFile} {locator : MapRowLocator} {record : UsageMapRecord}
    {spans : List BitSpan} :
    loadSpans file locator record (.indirect { start := 1, stop := record.raw.length }) =
      .ok spans ↔
      record.raw.length = indirectRowBytes ∧
        LoadedSlots file locator record.raw indirectReferenceSlots spans := by
  simp only [loadSpans, bind_ok_iff, exists_unit, refuseIf_ok_iff, not_not, pure_ok_iff, ne_eq,
    loadReferences_ok_iff]
  refine and_congr_right fun hlength => ?_
  have hslots : Range.len { start := 1, stop := record.raw.length } / indirectReferenceLen =
      indirectReferenceSlots := by
    rw [hlength]
    rfl
  rw [hslots]
  constructor
  · rintro ⟨⟨zeroSeen, _⟩, ⟨hloaded, -⟩, rfl⟩
    exact hloaded
  · exact fun hloaded =>
      ⟨(decide (spans.length < indirectReferenceSlots), spans), ⟨hloaded, rfl⟩, rfl⟩

/-- What a loaded map is: an inline record with its one span, or an indirect record with a span for
each used slot. -/
theorem load_ok {file : PageFile} {locator : MapRowLocator} {map : MapBits}
    (h : load file locator = .ok map) :
    ∃ image record, file[locator.page]? = some image ∧
      locateUsageMap
          { number := locator.page, kind := classifyPage locator.page image, raw := image }
          locator = .ok record ∧
      ((decodeAllocationMapLayout record.raw = .ok (.inline (leValue ((record.raw.drop 1).take 4))
            { start := inlineHeaderLen, stop := record.raw.length }) ∧
          map.spans = [{ first := leValue ((record.raw.drop 1).take 4), page := locator.page
                         offset := record.range.start + inlineHeaderLen
                         bytes := record.raw.drop inlineHeaderLen }]) ∨
        (decodeAllocationMapLayout record.raw =
            .ok (.indirect { start := 1, stop := record.raw.length }) ∧
          record.raw.length = indirectRowBytes ∧
          LoadedSlots file locator record.raw indirectReferenceSlots map.spans)) := by
  simp only [load, bind_ok_iff, exists_unit, WriteError.ofDefinition_ok_iff,
    WriteError.ofUsageMap_ok_iff, WriteError.ofAllocation_ok_iff, mapError_ok_iff,
    PageFile.readClassifiedPage_ok_iff, pure_ok_iff] at h
  obtain ⟨_, ⟨image, himage, rfl⟩, record, hrecord, layout, hlayout, -, spans, hspans, rfl⟩ := h
  refine ⟨image, record, himage, hrecord, ?_⟩
  rcases layout with ⟨startPage, bitmap⟩ | references
  · obtain ⟨-, -, rfl, rfl⟩ := decodeAllocationMapLayout_inline.mp hlayout
    exact .inl ⟨hlayout, loadSpans_inline.mp hspans⟩
  · obtain ⟨-, -, rfl⟩ := decodeAllocationMapLayout_indirect.mp hlayout
    exact .inr ⟨hlayout, loadSpans_indirect.mp hspans⟩

/-- A record whose spans load makes a map that loads. -/
theorem load_of {file : PageFile} {locator : MapRowLocator} {image : Page} {record : UsageMapRecord}
    {layout : AllocationMapLayout} {spans : List BitSpan}
    (himage : file[locator.page]? = some image)
    (hrecord : locateUsageMap
      { number := locator.page, kind := classifyPage locator.page image, raw := image } locator =
        .ok record)
    (hlayout : decodeAllocationMapLayout record.raw = .ok layout)
    (hbase : checkBase locator layout = .ok ())
    (hspans : loadSpans file locator record layout = .ok spans) :
    load file locator =
      .ok { locator, range := record.range, row := record.raw, layout, spans } := by
  simp only [load, bind_ok_iff, exists_unit, WriteError.ofDefinition_ok_iff,
    WriteError.ofUsageMap_ok_iff, WriteError.ofAllocation_ok_iff, mapError_ok_iff,
    PageFile.readClassifiedPage_ok_iff, pure_ok_iff]
  exact ⟨_, ⟨image, himage, rfl⟩, record, hrecord, layout, hlayout, hbase, spans, hspans, rfl⟩

/-- The spans of a loaded map follow each other. -/
theorem load_spaced {file : PageFile} {locator : MapRowLocator} {map : MapBits}
    (h : load file locator = .ok map) : map.Spaced := by
  obtain ⟨image, record, -, -, ⟨-, hspans⟩ | ⟨-, -, hslots⟩⟩ := load_ok h
  · rw [Spaced, hspans]
    exact List.pairwise_singleton _ _
  · exact hslots.spaced

/-- The record of a loaded map is on a page of the file. -/
theorem load_page_lt {file : PageFile} {locator : MapRowLocator} {map : MapBits}
    (h : load file locator = .ok map) : locator.page < file.pageCount := by
  obtain ⟨image, record, himage, -⟩ := load_ok h
  exact (List.getElem?_eq_some_iff.mp himage).1

/-- So are its bitmaps. -/
theorem load_span_lt {file : PageFile} {locator : MapRowLocator} {map : MapBits}
    (h : load file locator = .ok map) : ∀ span ∈ map.spans, span.page < file.pageCount := by
  intro span hspan
  obtain ⟨image, record, himage, -, ⟨-, hspans⟩ | ⟨-, -, hslots⟩⟩ := load_ok h
  · rw [hspans, List.mem_singleton] at hspan
    subst hspan
    exact load_page_lt h
  · obtain ⟨slot, hslot⟩ := List.mem_iff_getElem?.mp hspan
    obtain ⟨bitmap, hbitmap, -⟩ := (hslots.slot slot span hslot).bitmap
    exact (List.getElem?_eq_some_iff.mp hbitmap).1

/-- The pages of a loaded map can be told apart: an inline map starts at a number of four bytes and
ends within a page of bits, an indirect one covers its slots. -/
theorem load_lt {file : PageFile} {locator : MapRowLocator} {map : MapBits}
    (h : load file locator = .ok map) : ∀ page ∈ map.pages, page < 2 ^ 64 := by
  intro page hpage
  obtain ⟨span, hspan, hmem⟩ := List.mem_flatMap.mp hpage
  have hlt := BitSpan.lt_of_mem_pages hmem
  obtain ⟨image, record, -, hrecord, ⟨-, hspans⟩ | ⟨-, -, hslots⟩⟩ := load_ok h
  · rw [hspans, List.mem_singleton] at hspan
    subst hspan
    -- the start has four bytes, and a row less than a page
    have hstart : leValue ((record.raw.drop 1).take 4) < 256 ^ 4 :=
      lt_of_lt_of_le (leValue_lt _) (Nat.pow_le_pow_right (by decide) (List.length_take_le _ _))
    have hlength : (record.raw.drop inlineHeaderLen).length ≤ 8191 := by
      obtain ⟨-, -, -, -, -, rfl⟩ := locateUsageMap_ok_iff.mp hrecord
      rw [List.length_drop, Block.length_slice]
      exact (Nat.sub_le _ _).trans ((Nat.sub_le _ _).trans (rowStop_le image _))
    calc
      page < leValue ((record.raw.drop 1).take 4) + 8 * (record.raw.drop inlineHeaderLen).length :=
        hlt
      _ ≤ 256 ^ 4 + 8 * 8191 := Nat.add_le_add hstart.le (Nat.mul_le_mul_left 8 hlength)
      _ < 2 ^ 64 := by decide
  · obtain ⟨slot, hslot⟩ := List.mem_iff_getElem?.mp hspan
    have hloaded := hslots.slot slot span hslot
    have hbound : slot < indirectReferenceSlots :=
      lt_of_lt_of_le (List.getElem?_eq_some_iff.mp hslot).1 hslots.length_le
    rw [hloaded.length_bytes, hloaded.first_eq, ← Nat.succ_mul] at hlt
    calc page < (slot + 1) * extendedBitmapBits := hlt
      _ ≤ indirectReferenceSlots * extendedBitmapBits := Nat.mul_le_mul_right _ hbound
      _ < 2 ^ 64 := by decide

end MapBits

end Jet3
