import Jet3.Alloc.MapPages
import Jet3.Alloc.UsageMapWriter

/-!
# Loading written maps

What the encoders write loads back as the set it was written for: an inline row from its bitmap, and
a row of references from one bitmap page per slot (`SlotBitmaps`).
-/

namespace Jet3

open Outcome

/-- A file holds `row` as the map record at `locator`. -/
def HoldsRow (file : PageFile) (locator : MapRowLocator) (row : List UInt8) : Prop :=
  ∃ image record, file[locator.page]? = some image ∧
    locateUsageMap { number := locator.page, kind := classifyPage locator.page image, raw := image }
      locator = .ok record ∧ record.raw = row

/-- A map loads, and has the members a set has. -/
def LoadsAs (file : PageFile) (locator : MapRowLocator) (members : List PageNumber) : Prop :=
  ∃ map, MapBits.load file locator = .ok map ∧
    ∀ page, map.contains page = true ↔ page ∈ members

/-- A map whose spans name the members loads as them. -/
theorem LoadsAs.of_load {file : PageFile} {locator : MapRowLocator} {map : MapBits}
    {members : List PageNumber} (hload : MapBits.load file locator = .ok map)
    (h : ∀ page, page ∈ map.pages ↔ page ∈ members) : LoadsAs file locator members :=
  ⟨map, hload, fun page => ((MapBits.load_spaced hload).contains_iff).trans (h page)⟩

/-- The pages of a map that loads as a set are those of the set, in ascending order. -/
theorem LoadsAs.exists_pages {file : PageFile} {locator : MapRowLocator} {members : List PageNumber}
    (h : LoadsAs file locator members) (hmembers : members.Pairwise (· < ·)) :
    ∃ map, MapBits.load file locator = .ok map ∧ map.pages = members := by
  obtain ⟨map, hload, hcontains⟩ := h
  have hspaced := MapBits.load_spaced hload
  exact ⟨map, hload, Bitmap.eq_of_ascending hspaced.pairwise_pages hmembers fun page =>
    hspaced.contains_iff.symm.trans (hcontains page)⟩

/-! ## Inline rows -/

/-- The pages an inline row of the fixed width represents. -/
def inlineWindow : ℕ := 1024

namespace UsageMap

/-- A row of zeros, over which a map is written. -/
def emptyRow : List UInt8 :=
  List.replicate indirectRowBytes 0

/-- The last member of a set; zero where it has none. -/
def highest (members : List PageNumber) : PageNumber :=
  members.foldl max 0

/-- The inline row of a set. -/
def inlineRow (members : List PageNumber) : Except UsageMapWriteError (List UInt8) := do
  let map ← InlineUsageMapEncoder.new 0 128
  let map ← members.foldlM InlineUsageMapEncoder.setPage map
  map.encodeInto emptyRow

theorem le_highest {members : List PageNumber} {page : PageNumber} (h : page ∈ members) :
    page ≤ highest members := by
  have key : ∀ (members : List PageNumber) (start : PageNumber), start ≤ members.foldl max start ∧
      ∀ page ∈ members, page ≤ members.foldl max start := by
    intro members
    induction members with
    | nil => simp
    | cons first members ih =>
      intro start
      obtain ⟨hstart, hmembers⟩ := ih (max start first)
      rw [List.foldl_cons]
      refine ⟨(le_max_left _ _).trans hstart, ?_⟩
      rw [List.forall_mem_cons]
      exact ⟨(le_max_right _ _).trans hstart, hmembers⟩
  exact (key members 0).2 page h

/-- The last member of a set is one, unless it is given for a set without any. -/
theorem highest_mem {members : List PageNumber} (h : highest members ≠ 0) :
    highest members ∈ members := by
  have key : ∀ (members : List PageNumber) (start : PageNumber),
      members.foldl max start = start ∨ members.foldl max start ∈ members := by
    intro members
    induction members with
    | nil => exact fun start => .inl rfl
    | cons first members ih =>
      intro start
      rw [List.foldl_cons]
      rcases ih (max start first) with heq | hmem
      · rw [heq]
        rcases max_choice start first with hmax | hmax
        · exact .inl hmax
        · rw [hmax]
          exact .inr List.mem_cons_self
      · exact .inr (List.mem_cons_of_mem first hmem)
  exact (key members 0).resolve_left h

/-- An inline row holds the bitmap of its set. -/
theorem inlineRow_eq {members : List PageNumber} (h : highest members < inlineWindow) :
    ∃ bitmap, inlineRow members = .ok (inlineRecordType :: leBytes 4 0 ++ bitmap) ∧
      (inlineRecordType :: leBytes 4 0 ++ bitmap).length = indirectRowBytes ∧
      ∀ page, Bitmap.test bitmap page = true ↔ page ∈ members := by
  have hinside : ∀ page ∈ members, page < inlineWindow := fun page hpage =>
    lt_of_le_of_lt (le_highest hpage) h
  refine ⟨members.foldl (fun bitmap page => Bitmap.put bitmap page true) (List.replicate 128 0), ?_,
    ?_, fun page => ?_⟩
  · have hnew : InlineUsageMapEncoder.new 0 128 =
        .ok { startPage := 0, bitmap := List.replicate 128 0 } := by
      simp only [InlineUsageMapEncoder.new, bind_ok_iff, exists_unit, refuseIf_ok_iff, pure_ok_iff,
        and_true]
      decide
    have hcount : ∀ page ∈ members, page < (List.replicate 128 (0 : UInt8)).length * 8 := by
      rw [List.length_replicate]
      exact hinside
    -- all pages are inside the window, so every bit can be set
    have hset := InlineUsageMapEncoder.setPages_eq hcount
    simp only [inlineRow, bind_ok_iff]
    refine ⟨_, hnew, _, hset, InlineUsageMapEncoder.encodeInto_ok ?_⟩
    rw [Bitmap.length_foldl_put, emptyRow, List.length_replicate, List.length_replicate]
    rfl
  · rw [List.length_append, List.length_cons, length_leBytes, Bitmap.length_foldl_put,
      List.length_replicate]
    rfl
  · rw [Bitmap.test_foldl_put fun page hpage => ?_, Bitmap.test_replicate_zero]
    · simp
    · rw [List.length_replicate]
      exact Nat.div_lt_of_lt_mul (hinside page hpage)

end UsageMap

/-- An inline row from page zero on loads as the members of its bitmap. -/
theorem loadsAs_inline {file : PageFile} {locator : MapRowLocator} {bitmap : List UInt8}
    {members : List PageNumber}
    (hrow : HoldsRow file locator (inlineRecordType :: leBytes 4 0 ++ bitmap))
    (hmembers : ∀ page, Bitmap.test bitmap page = true ↔ page ∈ members) :
    LoadsAs file locator members := by
  obtain ⟨image, record, himage, hrecord, hraw⟩ := hrow
  have hzero : leValue ((record.raw.drop 1).take 4) = 0 := by
    rw [hraw]
    rfl
  have hbitmap : record.raw.drop inlineHeaderLen = bitmap := by
    rw [hraw]
    rfl
  have hlayout : decodeAllocationMapLayout record.raw =
      .ok (.inline 0 { start := inlineHeaderLen, stop := record.raw.length }) := by
    rw [decodeAllocationMapLayout_inline, hzero]
    refine ⟨by rw [hraw]; rfl, ?_, rfl, rfl⟩
    rw [hraw]
    show 5 ≤ bitmap.length + 5
    omega
  have hload := MapBits.load_of himage hrecord hlayout
    (refuseIf_ok_iff.mpr fun hbase => hbase.2 rfl) (MapBits.loadSpans_inline.mpr rfl)
  refine .of_load hload fun page => ?_
  rw [MapBits.pages, List.flatMap_singleton, BitSpan.mem_pages, hbitmap, Nat.sub_zero]
  simp [hmembers]

/-! ## Rows of references -/

theorem length_flatMap_leBytes (references : List PageNumber) :
    (references.flatMap (leBytes 4)).length = 4 * references.length := by
  induction references with
  | nil => rfl
  | cons page references ih =>
    rw [List.flatMap_cons, List.length_append, length_leBytes, ih, List.length_cons]
    omega

/-- The references of a written row are the ones it was written from. -/
theorem reference_row {references : List PageNumber} {slot : ℕ} {page : PageNumber}
    (h : references[slot]? = some page) (hwidth : page < 2 ^ 32) :
    MapBits.reference (indirectRecordType :: references.flatMap (leBytes 4)) slot = page := by
  -- references have four bytes each
  have key : ((references.flatMap (leBytes 4)).drop (4 * slot)).take 4 = leBytes 4 page := by
    induction references generalizing slot with
    | nil => simp at h
    | cons first references ih =>
      rw [List.flatMap_cons]
      cases slot with
      | zero =>
        cases h
        rw [Nat.mul_zero, List.drop_zero, List.take_left' (length_leBytes 4 _)]
      | succ slot =>
        rw [List.getElem?_cons_succ] at h
        rw [Nat.mul_succ, Nat.add_comm, ← List.drop_drop, List.drop_left' (length_leBytes 4 _),
          ih h]
  have hoffset : 1 + indirectReferenceLen * slot = 4 * slot + 1 := Nat.add_comm _ _
  rw [MapBits.reference, hoffset, List.drop_succ_cons]
  show leValue (List.take 4 _) = page
  rw [key, leValue_leBytes_of_lt hwidth]

/-- The bitmaps of the slots a map uses, one for each slot up to the last one, for the set
`members`. -/
structure SlotBitmaps (encoders : List ExtendedUsageMapEncoder) (members : List PageNumber) :
    Prop where
  header : ∀ encoder ∈ encoders, encoder.image.slice 0 4 = extendedHeader
  bitmap : ∀ slot encoder, encoders[slot]? = some encoder → ∀ n < extendedBitmapBits,
    Bitmap.test encoder.bitmap n = true ↔ slot * extendedBitmapBits + n ∈ members
  covers : ∀ page ∈ members, page / extendedBitmapBits < encoders.length

/-- The bitmap page of one slot, with the bits of the members it stands for. -/
structure FilledFor (slot : ℕ) (members : List PageNumber) (encoder : ExtendedUsageMapEncoder) :
    Prop where
  first_eq : encoder.first = slot * extendedBitmapBits
  header : encoder.image.slice 0 4 = extendedHeader
  bitmap_eq : encoder.bitmap =
    ((members.filter (· / extendedBitmapBits = slot)).map (· - slot * extendedBitmapBits)).foldl
      (fun bitmap n => Bitmap.put bitmap n true)
      (List.replicate (pageBytes - extendedBitmapOffset) 0)

/-- A new bitmap page is that of no member. -/
theorem filledFor_new {slot : ℕ} (h : slot * extendedBitmapBits < 2 ^ 64) :
    ∃ encoder, ExtendedUsageMapEncoder.new slot = .ok encoder ∧ FilledFor slot [] encoder := by
  obtain ⟨encoder, hnew, hfirst, hheader, hbitmap⟩ := ExtendedUsageMapEncoder.new_ok h
  exact ⟨encoder, hnew, hfirst, hheader, hbitmap⟩

/-- The pages of a slot are those of its stretch. -/
theorem mem_slot {slot page : ℕ} (h : page / extendedBitmapBits = slot) :
    slot * extendedBitmapBits ≤ page ∧ page - slot * extendedBitmapBits < extendedBitmapBits := by
  have hpos : 0 < extendedBitmapBits := by decide
  subst h
  rw [← Nat.mod_eq_sub_div_mul]
  exact ⟨Nat.div_mul_le_self _ _, Nat.mod_lt _ hpos⟩

/-- One more member of the slot. -/
theorem FilledFor.setPage {slot : ℕ} {members : List PageNumber} {encoder : ExtendedUsageMapEncoder}
    {page : PageNumber} (h : FilledFor slot members encoder)
    (hpage : page / extendedBitmapBits = slot) :
    ∃ encoder', encoder.setPage page = .ok encoder' ∧
    FilledFor slot (members ++ [page]) encoder' := by
  obtain ⟨hle, hlt⟩ := mem_slot hpage
  rw [← h.first_eq] at hle hlt
  obtain ⟨encoder', hset, hfirst, hheader, hbitmap⟩ := ExtendedUsageMapEncoder.setPage_ok hle hlt
  refine ⟨encoder', hset, hfirst.trans h.first_eq, hheader.trans h.header, ?_⟩
  rw [hbitmap, h.bitmap_eq, h.first_eq, List.filter_append, List.filter_singleton]
  simp [hpage]

/-- One more member of another slot. -/
theorem FilledFor.other {slot : ℕ} {members : List PageNumber} {encoder : ExtendedUsageMapEncoder}
    {page : PageNumber} (h : FilledFor slot members encoder)
    (hpage : page / extendedBitmapBits ≠ slot) :
    FilledFor slot (members ++ [page]) encoder := by
  refine ⟨h.first_eq, h.header, ?_⟩
  rw [List.filter_append, List.filter_singleton]
  simpa [hpage] using h.bitmap_eq

/-- A bitmap page of no member is that of a set without a member of its slot. -/
theorem FilledFor.of_empty {slot : ℕ} {members : List PageNumber}
    {encoder : ExtendedUsageMapEncoder}
    (h : FilledFor slot [] encoder) (hnone : ∀ page ∈ members, page / extendedBitmapBits ≠ slot) :
    FilledFor slot members encoder := by
  have hfilter : members.filter (· / extendedBitmapBits = slot) = [] := by
    simpa using hnone
  exact ⟨h.first_eq, h.header, by rw [hfilter]; exact h.bitmap_eq⟩

/-- The bits of a filled bitmap page are the members of its stretch. -/
theorem FilledFor.test_iff {slot n : ℕ} {members : List PageNumber}
    {encoder : ExtendedUsageMapEncoder} (h : FilledFor slot members encoder)
    (hn : n < extendedBitmapBits) :
    Bitmap.test encoder.bitmap n = true ↔ slot * extendedBitmapBits + n ∈ members := by
  have hpos : 0 < extendedBitmapBits := by decide
  -- the bits that were set are inside the bitmap
  have hinside : ∀ m ∈ (members.filter (· / extendedBitmapBits = slot)).map
      (· - slot * extendedBitmapBits),
      m / 8 < (List.replicate (pageBytes - extendedBitmapOffset) (0 : UInt8)).length := by
    intro m hm
    obtain ⟨page, hpage, rfl⟩ := List.mem_map.mp hm
    rw [List.mem_filter, decide_eq_true_iff] at hpage
    rw [List.length_replicate]
    refine Nat.div_lt_of_lt_mul ?_
    rw [Nat.mul_comm 8]
    exact (mem_slot hpage.2).2
  rw [h.bitmap_eq, Bitmap.test_foldl_put hinside, Bitmap.test_replicate_zero]
  simp only [ite_eq_left_iff, Bool.false_eq_true, imp_false, not_not, List.mem_map, List.mem_filter,
    decide_eq_true_iff]
  constructor
  · rintro ⟨page, ⟨hmem, hslot⟩, rfl⟩
    rwa [Nat.add_sub_cancel' (mem_slot hslot).1]
  · intro hmem
    refine ⟨_, ⟨hmem, ?_⟩, Nat.add_sub_cancel_left _ _⟩
    rw [Nat.mul_comm, Nat.mul_add_div hpos, Nat.div_eq_of_lt hn, Nat.add_zero]

/-- Encoders that were filled slot by slot hold the bitmaps of the set. -/
theorem SlotBitmaps.of_filled {encoders : List ExtendedUsageMapEncoder} {members : List PageNumber}
    (hfilled : ∀ slot encoder, encoders[slot]? = some encoder → FilledFor slot members encoder)
    (hcovers : ∀ page ∈ members, page / extendedBitmapBits < encoders.length) :
    SlotBitmaps encoders members where
  header encoder hmem := by
    obtain ⟨slot, hget⟩ := List.getElem?_of_mem hmem
    exact (hfilled slot encoder hget).header
  bitmap slot encoder hget _ hn := (hfilled slot encoder hget).test_iff hn
  covers := hcovers

/-- The span a slot with a bitmap page is loaded as. -/
def slotSpan (slot : ℕ) (number : PageNumber) (encoder : ExtendedUsageMapEncoder) : BitSpan :=
  { first := slot * extendedBitmapBits, page := number, offset := extendedBitmapOffset
    bytes := encoder.bitmap }

/-- The spans of a row whose slots refer to `numbers`. -/
def slotSpans (numbers : List PageNumber) (encoders : List ExtendedUsageMapEncoder) :
    List BitSpan :=
  (numbers.zip encoders).mapIdx fun slot entry => slotSpan slot entry.1 entry.2

/-- The span of a slot, from its page and its encoder. -/
theorem slotSpans_eq_some {numbers : List PageNumber} {encoders : List ExtendedUsageMapEncoder}
    {slot : ℕ} {span : BitSpan} :
    (slotSpans numbers encoders)[slot]? = some span ↔ ∃ number encoder,
      numbers[slot]? = some number ∧ encoders[slot]? = some encoder ∧
        span = slotSpan slot number encoder := by
  rw [slotSpans, List.getElem?_mapIdx, Option.map_eq_some_iff]
  constructor
  · rintro ⟨⟨number, encoder⟩, hentry, rfl⟩
    obtain ⟨hnumber, hencoder⟩ := List.getElem?_zip_eq_some.mp hentry
    exact ⟨number, encoder, hnumber, hencoder, rfl⟩
  · rintro ⟨number, encoder, hnumber, hencoder, rfl⟩
    exact ⟨(number, encoder), List.getElem?_zip_eq_some.mpr ⟨hnumber, hencoder⟩, rfl⟩

/-- The spans are on the pages that were given out. -/
theorem map_page_slotSpans {numbers : List PageNumber} {encoders : List ExtendedUsageMapEncoder}
    (hlength : numbers.length = encoders.length) :
    (slotSpans numbers encoders).map BitSpan.page = numbers := by
  apply List.ext_getElem?
  intro slot
  rw [List.getElem?_map, slotSpans, List.getElem?_mapIdx, Option.map_map]
  have hzip : (numbers.zip encoders)[slot]?.map Prod.fst = numbers[slot]? := by
    rw [← List.getElem?_map, List.map_fst_zip hlength.le]
  exact hzip

/-- The bitmaps of a set name exactly its members. -/
theorem SlotBitmaps.mem_pages {encoders : List ExtendedUsageMapEncoder} {members : List PageNumber}
    (h : SlotBitmaps encoders members) {numbers : List PageNumber}
    (hlength : numbers.length = encoders.length) {page : PageNumber} :
    page ∈ (slotSpans numbers encoders).flatMap BitSpan.pages ↔ page ∈ members := by
  have hpos : 0 < extendedBitmapBits := by decide
  rw [List.mem_flatMap]
  constructor
  · rintro ⟨span, hmem, hpage⟩
    obtain ⟨slot, hget⟩ := List.getElem?_of_mem hmem
    obtain ⟨number, encoder, -, hencoder, rfl⟩ := slotSpans_eq_some.mp hget
    -- a page of the span is in the stretch of its slot
    have hstretch := BitSpan.lt_of_mem_pages hpage
    obtain ⟨hfirst, htest⟩ := BitSpan.mem_pages.mp hpage
    dsimp only [slotSpan] at hfirst htest hstretch
    rw [Nat.mul_comm 8, encoder.length_bitmap] at hstretch
    have hn : page - slot * extendedBitmapBits < extendedBitmapBits :=
      Nat.sub_lt_left_of_lt_add hfirst hstretch
    have hmember := (h.bitmap slot encoder hencoder _ hn).mp htest
    rwa [Nat.add_sub_cancel' hfirst] at hmember
  · intro hmember
    -- and every member has a slot
    have hslot := h.covers page hmember
    have hencoder := List.getElem?_eq_getElem hslot
    have hnumber := List.getElem?_eq_getElem
      (hlength ▸ hslot : page / extendedBitmapBits < numbers.length)
    refine ⟨_, List.mem_of_getElem? (slotSpans_eq_some.mpr ⟨_, _, hnumber, hencoder, rfl⟩), ?_⟩
    rw [BitSpan.mem_pages]
    refine ⟨Nat.div_mul_le_self page extendedBitmapBits, ?_⟩
    dsimp only [slotSpan]
    rw [← Nat.mod_eq_sub_div_mul, h.bitmap _ _ hencoder _ (Nat.mod_lt page hpos), Nat.mul_comm,
      Nat.div_add_mod]
    exact hmember

/-- A row of references to the bitmap pages of a set loads as the set. -/
theorem loadsAs_indirect {file : PageFile} {locator : MapRowLocator}
    {numbers members : List PageNumber}
    {encoders : List ExtendedUsageMapEncoder} (hbitmaps : SlotBitmaps encoders members)
    (hrow : HoldsRow file locator (indirectRecordType ::
      (numbers ++ List.replicate (indirectReferenceSlots - numbers.length) 0).flatMap (leBytes 4)))
    (hlength : numbers.length = encoders.length) (hslots : numbers.length ≤ indirectReferenceSlots)
    (hstored : ∀ (slot : ℕ) (number : PageNumber), numbers[slot]? = some number →
      file[number]? = encoders[slot]?.map ExtendedUsageMapEncoder.image)
    (hwidth : ∀ number ∈ numbers, number ≠ 0 ∧ number < 2 ^ 32)
    (hdistinct : (locator.page :: numbers).Nodup) : LoadsAs file locator members := by
  obtain ⟨image, record, himage, hrecord, hraw⟩ := hrow
  generalize hreferences :
    numbers ++ List.replicate (indirectReferenceSlots - numbers.length) 0 = references at hraw
  have hcount : references.length = indirectReferenceSlots := by
    rw [← hreferences, List.length_append, List.length_replicate]
    omega
  have hbytes : record.raw.length = indirectRowBytes := by
    rw [hraw, List.length_cons, length_flatMap_leBytes, hcount]
    rfl
  -- a row of this type and length is read as references
  have hlayout : decodeAllocationMapLayout record.raw =
      .ok (.indirect { start := 1, stop := record.raw.length }) := by
    rw [decodeAllocationMapLayout_indirect, hbytes]
    exact ⟨by rw [hraw]; rfl, by decide, rfl⟩
  have hpages := map_page_slotSpans hlength
  have hspansLength : (slotSpans numbers encoders).length = numbers.length := by
    rw [← List.length_map BitSpan.page, hpages]
  -- used slots lead to the bitmap pages, the slots behind them are zero
  have hloaded : MapBits.LoadedSlots file locator record.raw indirectReferenceSlots
      (slotSpans numbers encoders) := by
    refine ⟨fun slot span hget => ?_, hspansLength.trans_le hslots, fun slot hge hslot => ?_,
      by rwa [hpages]⟩
    · obtain ⟨number, encoder, hnumber, hencoder, rfl⟩ := slotSpans_eq_some.mp hget
      obtain ⟨hne, hlt⟩ := hwidth number (List.mem_of_getElem? hnumber)
      have hreference : references[slot]? = some number := by
        rw [← hreferences, List.getElem?_append_left (List.getElem?_eq_some_iff.mp hnumber).1,
          hnumber]
      refine ⟨?_, hne, rfl, rfl, encoder.image, ?_,
        hbitmaps.header _ (List.mem_of_getElem? hencoder), rfl⟩
      · rw [hraw]
        exact reference_row hreference hlt
      · show file[number]? = _
        rw [hstored slot number hnumber, hencoder, Option.map_some]
    · rw [hraw]
      refine reference_row ?_ (by decide)
      rw [← hreferences, List.getElem?_append_right (by omega), List.getElem?_replicate,
        if_pos (by omega)]
  have hload := MapBits.load_of himage hrecord hlayout rfl
    (MapBits.loadSpans_indirect.mpr ⟨hbytes, hloaded⟩)
  exact .of_load hload fun page => hbitmaps.mem_pages hlength

/-- The references to bitmap pages that follow each other from `base` on. -/
def consecutiveReferences (base count : ℕ) : List PageNumber :=
  List.range' base count ++ List.replicate (indirectReferenceSlots - count) 0

/-- Unused references are zeros, so that a row has all of them. -/
@[simp]
theorem length_consecutiveReferences {base count : ℕ} (h : count ≤ indirectReferenceSlots) :
    (consecutiveReferences base count).length = indirectReferenceSlots := by
  rw [consecutiveReferences, List.length_append, List.length_range', List.length_replicate,
    Nat.add_sub_cancel' h]

/-- One more reference. -/
theorem set_consecutiveReferences {base count : ℕ} (h : count < indirectReferenceSlots) :
    (consecutiveReferences base count).set count (base + count) =
      consecutiveReferences base (count + 1) := by
  have hleft : indirectReferenceSlots - count = indirectReferenceSlots - (count + 1) + 1 := by omega
  rw [consecutiveReferences, List.set_append_right _ _ (by simp), List.length_range', Nat.sub_self,
    hleft, List.replicate_succ, List.set_cons_zero, consecutiveReferences, List.range'_concat,
    Nat.one_mul, List.append_assoc]
  rfl

/-- A row of consecutive references fills a row of the fixed width. -/
theorem encode_consecutiveReferences {base count : ℕ} (hcount : count ≤ indirectReferenceSlots)
    (hwidth : base + count ≤ 2 ^ 32) :
    encodeIndirectReferences (consecutiveReferences base count) UsageMap.emptyRow =
      .ok (indirectRecordType :: (consecutiveReferences base count).flatMap (leBytes 4)) := by
  refine encodeIndirectReferences_ok ?_ fun page hpage => ?_
  · rw [UsageMap.emptyRow, List.length_replicate, length_consecutiveReferences hcount]
    rfl
  · rcases List.mem_append.mp hpage with hpage | hpage
    · exact lt_of_lt_of_le (List.mem_range'_1.mp hpage).2 hwidth
    · rw [List.eq_of_mem_replicate hpage]
      decide

/-- The row of an indirect map has its full length. -/
theorem length_consecutiveRow {base count : ℕ} (hcount : count ≤ indirectReferenceSlots) :
    (indirectRecordType :: (consecutiveReferences base count).flatMap (leBytes 4)).length =
      indirectRowBytes := by
  rw [List.length_cons, length_flatMap_leBytes, length_consecutiveReferences hcount]
  rfl

/-- A row of references to bitmap pages that follow each other loads as the set they were filled
for. -/
theorem loadsAs_consecutive {file : PageFile} {locator : MapRowLocator} {base : ℕ}
    {members : List PageNumber} {encoders : List ExtendedUsageMapEncoder}
    (hbitmaps : SlotBitmaps encoders members)
    (hrow : HoldsRow file locator
      (indirectRecordType :: (consecutiveReferences base encoders.length).flatMap (leBytes 4)))
    (hslots : encoders.length ≤ indirectReferenceSlots)
    (hstored : ∀ slot < encoders.length,
      file[base + slot]? = encoders[slot]?.map ExtendedUsageMapEncoder.image)
    (hbase : 0 < base) (hwidth : base + encoders.length ≤ 2 ^ 32)
    (hrecord : locator.page < base ∨ base + encoders.length ≤ locator.page) :
    LoadsAs file locator members := by
  have hlength : (List.range' base encoders.length).length = encoders.length := List.length_range'
  refine loadsAs_indirect hbitmaps (by rwa [hlength]) hlength (by rwa [hlength])
    (fun slot number hnumber => ?_) (fun number hnumber => ?_) ?_
  · obtain ⟨hslot, rfl⟩ := List.getElem?_eq_some_iff.mp hnumber
    rw [List.getElem_range', Nat.one_mul, hstored slot (hlength ▸ hslot)]
  · obtain ⟨hle, hlt⟩ := List.mem_range'_1.mp hnumber
    exact ⟨Nat.ne_of_gt (lt_of_lt_of_le hbase hle), lt_of_lt_of_le hlt hwidth⟩
  · rw [List.nodup_cons]
    refine ⟨fun hmem => ?_, List.nodup_range'⟩
    obtain ⟨hle, hlt⟩ := List.mem_range'_1.mp hmem
    exact hrecord.elim (fun h => absurd h (not_lt.mpr hle)) fun h => absurd hlt (not_lt.mpr h)

end Jet3
