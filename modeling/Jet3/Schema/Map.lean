import Jet3.Alloc.MapRoundTrip
import Jet3.Schema.DefinitionStaging

/-!
# New map rows

A schema edit that needs an allocation map places a new row for it on a page of its own, with one
bitmap page per slot where a member lies past the inline window.

* `create` plans the row;
* `create_loadsAs` says that it loads as the set it was made for.
-/

namespace Jet3

open Outcome

namespace UsageMap

/-- The bitmap page of the members of one slot. -/
def slotBitmap (members : List PageNumber) (slot : ℕ) : Except WriteError ExtendedUsageMapEncoder :=
  WriteError.ofMapEncoding do
    let map ← ExtendedUsageMapEncoder.new slot
    members.foldlM (fun map page =>
      if page / extendedBitmapBits = slot then map.setPage page else return map) map

/-- One iteration over the slots: its bitmap page is appended and referred to. -/
def placeSlot (file : PageFile) (members : List PageNumber) (state : PageEdits × List PageNumber)
    (slot : ℕ) : Except WriteError (PageEdits × List PageNumber) := do
  let map ← slotBitmap members slot
  let (edits, page) ← allocate file state.1 map.image
  return (edits, state.2.set slot page)

/-- The row of a map with bitmap pages, which are appended. -/
def indirectRow (file : PageFile) (edits : PageEdits) (members : List PageNumber) :
    Except WriteError (PageEdits × List UInt8) := do
  let count := highest members / extendedBitmapBits + 1
  refuseIf (count > indirectReferenceSlots) (.unsupported "indirect allocation reference capacity")
  let (edits, references) ← (List.range count).foldlM (placeSlot file members)
    (edits, List.replicate indirectReferenceSlots 0)
  let row ← WriteError.ofMapEncoding (encodeIndirectReferences references emptyRow)
  return (edits, row)

/-- The row of a set, and its bitmap pages where it needs any. -/
def rowOf (file : PageFile) (edits : PageEdits) (members : List PageNumber) :
    Except WriteError (PageEdits × List UInt8) :=
  if highest members < inlineWindow then do
    let row ← WriteError.ofMapEncoding (inlineRow members)
    return (edits, row)
  else indirectRow file edits members

/-- The page of a new row. -/
def rowPage (row : List UInt8) : Except WriteError Page := do
  let builder ← WriteError.ofPageImage (DataPageBuilder.new 0)
  let (builder, _) ← WriteError.ofPageImage (builder.appendRow row)
  let free ← okOr (toU16 builder.freeBytes) (.mismatch "usage-map free bytes")
  WriteError.ofError (writeAt builder.image freeSpaceOffset (leBytes 2 free))

/-- `create`. -/
def create (file : PageFile) (edits : PageEdits) (members : List PageNumber) :
    Except WriteError (PageEdits × MapRowLocator) := do
  let (edits, row) ← rowOf file edits members
  let image ← rowPage row
  let (edits, page) ← allocate file edits image
  return (edits, { page, row := 0 })

/-! ## The rows -/

/-- The bitmap page of a slot can always be built. -/
theorem slotBitmap_filled {members : List PageNumber} {slot : ℕ}
    (h : slot * extendedBitmapBits < 2 ^ 64) :
    ∃ encoder, slotBitmap members slot = .ok encoder ∧ FilledFor slot members encoder := by
  obtain ⟨encoder, hnew, hempty⟩ := filledFor_new h
  have hfold : ∃ filled, members.foldlM (fun map page =>
        if page / extendedBitmapBits = slot then ExtendedUsageMapEncoder.setPage map page
        else return map) encoder = .ok filled ∧ FilledFor slot members filled := by
    refine exists_foldlM_ok (fun done map => FilledFor slot done map) hempty ?_
    intro done page rest map _ hmap
    by_cases hpage : page / extendedBitmapBits = slot
    · rw [if_pos hpage]
      exact hmap.setPage hpage
    · rw [if_neg hpage]
      exact ⟨map, rfl, hmap.other hpage⟩
  obtain ⟨filled, hfilled, hfor⟩ := hfold
  refine ⟨filled, ?_, hfor⟩
  simp only [slotBitmap, WriteError.ofMapEncoding_ok_iff, bind_ok_iff]
  exact ⟨encoder, hnew, hfilled⟩

/-- The slots of a row: their bitmap pages are appended in order and referred to. -/
theorem placeSlots_ok {file : PageFile} {members references : List PageNumber}
    {edits edits' : PageEdits} {count : ℕ} (hcount : count ≤ indirectReferenceSlots)
    (h : (List.range count).foldlM (placeSlot file members)
      (edits, List.replicate indirectReferenceSlots 0) = .ok (edits', references)) :
    ∃ encoders : List ExtendedUsageMapEncoder, encoders.length = count ∧
      (∀ slot encoder, encoders[slot]? = some encoder → FilledFor slot members encoder) ∧
      references = consecutiveReferences (edits.firstAppend + edits.appended.length) count ∧
      (∀ slot < count, edits.firstAppend + edits.appended.length + slot ≤ maxAppendPage) ∧
      edits'.appended = edits.appended ++ encoders.map ExtendedUsageMapEncoder.image ∧
      edits'.firstAppend = edits.firstAppend := by
  have key := foldlM_ok_induction (fun (done : List ℕ) (state : PageEdits × List PageNumber) =>
    ∃ encoders : List ExtendedUsageMapEncoder, encoders.length = done.length ∧
      (∀ slot encoder, encoders[slot]? = some encoder → FilledFor slot members encoder) ∧
      state.2 = consecutiveReferences (edits.firstAppend + edits.appended.length) done.length ∧
      (∀ slot < done.length, edits.firstAppend + edits.appended.length + slot ≤ maxAppendPage) ∧
      state.1.appended = edits.appended ++ encoders.map ExtendedUsageMapEncoder.image ∧
      state.1.firstAppend = edits.firstAppend) ⟨[], by simp [consecutiveReferences]⟩ ?_ h
  · simpa using key
  rintro done slot rest ⟨before, references⟩ ⟨after, references'⟩ hsplit
    ⟨encoders, hlength, hfilled, hreferences, hmax, happended, hfirst⟩ hstep
  dsimp only at hreferences happended hfirst
  -- the slots are visited in order
  have hslot : slot = done.length ∧ slot < count := by
    have hget := congrArg (fun slots => slots[done.length]?) hsplit
    simp only [List.getElem?_append_right le_rfl, Nat.sub_self, List.getElem?_cons_zero,
      List.getElem?_eq_some_iff, List.length_range, List.getElem_range] at hget
    obtain ⟨hlt, heq⟩ := hget
    exact ⟨heq.symm, heq ▸ hlt⟩
  obtain ⟨rfl, hlt⟩ := hslot
  have hwidth : done.length * extendedBitmapBits < 2 ^ 64 := by
    have hslots : done.length < 33 := lt_of_lt_of_le hlt hcount
    have hbits : extendedBitmapBits = 16352 := rfl
    rw [hbits]
    omega
  simp only [placeSlot, bind_ok_iff, pure_ok_iff, Prod.exists, Prod.mk.injEq] at hstep
  obtain ⟨encoder, hencoder, _, number, hallocate, rfl, rfl⟩ := hstep
  obtain ⟨encoder', hencoder', hfor⟩ := @slotBitmap_filled members _ hwidth
  cases hencoder.symm.trans hencoder'
  obtain ⟨hnumber, hle, happended', -, hfirst', -⟩ := allocate_ok hallocate
  have hnumberEq : number = edits.firstAppend + edits.appended.length + done.length := by
    rw [hnumber, happended, hfirst, List.length_append, List.length_map, hlength, Nat.add_assoc]
  refine ⟨encoders ++ [encoder], by simp [hlength], fun n other hother => ?_, ?_, fun n hn => ?_,
    ?_, hfirst'.trans hfirst⟩
  · rcases Nat.lt_or_ge n encoders.length with hn | hn
    · rw [List.getElem?_append_left hn] at hother
      exact hfilled n other hother
    · rw [List.getElem?_append_right hn, List.getElem?_singleton] at hother
      split at hother
      · cases hother
        obtain rfl : n = done.length := by omega
        exact hfor
      · cases hother
  · dsimp only
    rw [hreferences, hnumberEq, set_consecutiveReferences (lt_of_lt_of_le hlt hcount),
      List.length_append, List.length_singleton]
  · rw [List.length_append, List.length_singleton] at hn
    rcases Nat.lt_succ_iff_lt_or_eq.mp hn with hn | rfl
    · exact hmax n hn
    · rwa [← hnumberEq]
  · rw [happended', happended, List.map_append, List.append_assoc]
    rfl

/-! ## Loading a new map -/

/-- The directory of a page built for one row of the fixed width. -/
theorem rowPage_ok {row : List UInt8} {image : Page} (hlength : row.length = indirectRowBytes)
    (h : rowPage row = .ok image) :
    image.get 0 = 1 ∧ u16At image rowCountOffset = 1 ∧
      rawOffset image 0 = pageBytes - indirectRowBytes ∧
      image.slice (pageBytes - indirectRowBytes) pageBytes = row := by
  have hbytes : indirectRowBytes = 133 := rfl
  have hpage : pageBytes = 2048 := rfl
  have hnew : DataPageBuilder.Invariant
      { image := (PageKind.newImage .data).write ownerOffset (leBytes 4 0), rowCount := 0
        freeEnd := pageBytes } := ⟨le_rfl, (by decide : 10 + 2 * 0 ≤ pageBytes)⟩
  simp only [rowPage, bind_ok_iff, WriteError.ofPageImage_ok_iff, WriteError.ofError_ok_iff,
    DataPageBuilder.new_ok_iff, Prod.exists, okOr_ok_iff, toU16_eq_some, writeAt_ok_iff] at h
  obtain ⟨_, ⟨-, rfl⟩, builder, slot, happend, free, ⟨-, rfl⟩, -, rfl⟩ := h
  obtain ⟨-, -, -, -, rfl⟩ := (DataPageBuilder.appendRow_ok_iff hnew).mp happend
  have htwo : ∀ value, (leBytes 2 value).length = 2 := length_leBytes 2
  have hfour : (leBytes 4 0).length = 4 := length_leBytes 4 0
  have hoffsets : freeSpaceOffset = 2 ∧ rowCountOffset = 8 ∧ directoryOffset = 10 ∧
      ownerOffset = 4 ∧ entryLen = 2 := ⟨rfl, rfl, rfl, rfl, rfl⟩
  obtain ⟨hfree, hcount, hdirectory, howner, hentry⟩ := hoffsets
  simp only [hfree, hcount, hdirectory, howner, hentry, rawOffset, Nat.mul_zero, Nat.add_zero,
    hlength]
  -- the page's kind, its row count, the place of the row and the row
  refine ⟨?_, ?_, ?_, ?_⟩
  · rw [Block.get_write_of_notMem (.inl (by decide)), Block.get_write_of_notMem (.inl (by decide)),
      Block.get_write_of_notMem (.inl (by decide)), Block.get_write_of_notMem (.inl (by decide)),
      Block.get_write_of_notMem (.inl (by decide))]
    rfl
  · rw [u16At, Block.le_write_of_disjoint _ (.inr (by rw [htwo]; decide)),
      Block.le_write_self _ (htwo _) (by decide)]
    rfl
  · rw [u16At, Block.le_write_of_disjoint _ (.inr (by rw [htwo]; decide)),
      Block.le_write_of_disjoint _ (.inr (by rw [htwo])),
      Block.le_write_self _ (htwo _) (by decide)]
    rfl
  · rw [Block.slice_write_of_disjoint _ (.inr (by rw [htwo]; decide)),
      Block.slice_write_of_disjoint _ (.inr (by rw [htwo]; decide)),
      Block.slice_write_of_disjoint _ (.inr (by rw [htwo]; decide)),
      Block.slice_write_self _ (by rw [hlength]; rfl) le_rfl]

/-- A row of the fixed width always fits a new page. -/
theorem exists_rowPage {row : List UInt8} (hlength : row.length = indirectRowBytes) :
    ∃ image, rowPage row = .ok image := by
  have hbytes : indirectRowBytes = 133 := rfl
  have hpage : pageBytes = 2048 := rfl
  have hne : row ≠ [] := List.ne_nil_of_length_pos (by omega)
  have hnew : DataPageBuilder.Invariant
      { image := (PageKind.newImage .data).write ownerOffset (leBytes 4 0), rowCount := 0
        freeEnd := pageBytes } := ⟨le_rfl, (by decide : 10 + 2 * 0 ≤ pageBytes)⟩
  simp only [rowPage, bind_ok_iff, WriteError.ofPageImage_ok_iff, WriteError.ofError_ok_iff,
    DataPageBuilder.new_ok_iff, Prod.exists, okOr_ok_iff, toU16_eq_some, writeAt_ok_iff]
  refine ⟨_, _, ⟨by decide, rfl⟩, _, _, (DataPageBuilder.appendRow_ok_iff hnew).mpr
    ⟨hne, by decide, ?_, rfl, rfl⟩, _, ⟨?_, rfl⟩, ?_, rfl⟩
  · simp only [DataPageBuilder.freeBytes, directoryOffset, entryLen]
    omega
  · simp only [DataPageBuilder.freeBytes, directoryOffset, entryLen]
    omega
  · rw [length_leBytes]
    decide

/-- A page built for one row of the fixed width holds that row. -/
theorem rowPage_holds {row : List UInt8} {image : Page} {file : PageFile} {page : PageNumber}
    (hlength : row.length = indirectRowBytes) (h : rowPage row = .ok image) (hpage : page ≠ 0)
    (hstored : file[page]? = some image) : HoldsRow file { page, row := 0 } row := by
  obtain ⟨htag, hcount, hoffset, hrow⟩ := rowPage_ok hlength h
  have hstart : rowStart image 0 = pageBytes - indirectRowBytes := by
    rw [rowStart, hoffset]
    rfl
  refine ⟨image, _, hstored, locateUsageMap_ok_iff.mpr ⟨rfl, ?_, ?_, ?_, ?_, rfl⟩, ?_⟩
  · exact (classifyPage_eq_iff hpage (by simp) (by simp)).mpr htag
  · dsimp only
    rw [hcount]
    decide
  · dsimp only
    rw [hcount]
    decide
  · dsimp only
    rw [hcount]
    intro n hn
    obtain rfl : n = 0 := Nat.lt_one_iff.mp hn
    constructor
    · rw [hoffset]
      exact fun hlt => absurd hlt (by decide)
    · rw [hstart]
      decide
    · rw [hstart, rowStop_zero]
      decide
    · rw [hstart, rowStop_zero, hoffset]
      decide
  · dsimp only
    show image.slice (rowStart image 0) (rowStop image 0) = row
    rw [hstart, rowStop_zero, hrow]

/-- The numbers of appended pages fit their references. -/
theorem width_of_maxAppend {base count : ℕ} (hpos : 0 < count)
    (hmax : ∀ slot < count, base + slot ≤ maxAppendPage) : base + count ≤ 2 ^ 32 := by
  have hlast := hmax (count - 1) (by omega)
  have hbound : maxAppendPage < 2 ^ 32 := by decide
  omega

/-- What an indirect row consists of: references to the bitmap pages appended for it. -/
theorem indirectRow_ok {file : PageFile} {edits edits' : PageEdits} {members : List PageNumber}
    {row : List UInt8} (h : indirectRow file edits members = .ok (edits', row)) :
    ∃ encoders : List ExtendedUsageMapEncoder, SlotBitmaps encoders members ∧
      encoders.length ≤ indirectReferenceSlots ∧
      edits.firstAppend + edits.appended.length + encoders.length ≤ 2 ^ 32 ∧
      row = indirectRecordType :: (consecutiveReferences
        (edits.firstAppend + edits.appended.length) encoders.length).flatMap (leBytes 4) ∧
      edits'.appended = edits.appended ++ encoders.map ExtendedUsageMapEncoder.image ∧
      edits'.firstAppend = edits.firstAppend := by
  simp only [indirectRow, bind_ok_iff, exists_unit, refuseIf_ok_iff, gt_iff_lt, not_lt, pure_ok_iff,
    WriteError.ofMapEncoding_ok_iff, Prod.exists, Prod.mk.injEq] at h
  obtain ⟨hcount, placed, references, hplaced, _, hrow, rfl, rfl⟩ := h
  obtain ⟨encoders, hlength, hfilled, rfl, hmax, happended, hfirst⟩ := placeSlots_ok hcount hplaced
  have hwidth : edits.firstAppend + edits.appended.length + encoders.length ≤ 2 ^ 32 := by
    rw [hlength]
    exact width_of_maxAppend (Nat.succ_pos _) hmax
  rw [← hlength] at hcount hrow
  refine ⟨encoders, .of_filled hfilled fun page hpage => ?_, hcount, hwidth,
    Except.ok.inj (hrow.symm.trans (encode_consecutiveReferences hcount hwidth)), happended, hfirst⟩
  rw [hlength]
  exact Nat.lt_succ_of_le (Nat.div_le_div_right (le_highest hpage))

/-- A planned row loads as the set it was made for, in every file that holds what was appended for
it. -/
theorem create_loadsAs {file file' : PageFile} {edits edits' : PageEdits}
    {members : List PageNumber}
    {locator : MapRowLocator} (hfirst : 0 < edits.firstAppend)
    (h : create file edits members = .ok (edits', locator))
    (hstored : ∀ n, edits.appended.length ≤ n → n < edits'.appended.length →
      file'[edits.firstAppend + n]? = edits'.appended[n]?) :
    LoadsAs file' locator members := by
  simp only [create, bind_ok_iff, pure_ok_iff, Prod.exists, Prod.mk.injEq] at h
  obtain ⟨placed, row, hrow, image, himage, _, page, hallocate, rfl, rfl⟩ := h
  obtain ⟨hpage, -, happended, -, -, -⟩ := allocate_ok hallocate
  rw [happended] at hstored
  -- the page of the row is the one appended last
  have hholds : placed.firstAppend = edits.firstAppend →
      edits.appended.length ≤ placed.appended.length → row.length = indirectRowBytes →
      HoldsRow file' { page, row := 0 } row := by
    intro hkept hle hlength
    refine rowPage_holds hlength himage (by rw [hpage, hkept]; exact Nat.ne_of_gt (by omega)) ?_
    rw [hpage, hkept, hstored _ hle (by simp), List.getElem?_append_right le_rfl, Nat.sub_self,
      List.getElem?_cons_zero]
  unfold rowOf at hrow
  split at hrow
  · rename_i hinline
    simp only [bind_ok_iff, WriteError.ofMapEncoding_ok_iff, pure_ok_iff, Prod.mk.injEq] at hrow
    obtain ⟨_, hinlineRow, rfl, rfl⟩ := hrow
    obtain ⟨bitmap, hbitmap, hlength, hmembers⟩ := inlineRow_eq hinline
    cases hbitmap.symm.trans hinlineRow
    exact loadsAs_inline (hholds rfl le_rfl hlength) hmembers
  · obtain ⟨encoders, hbitmaps, hslots, hwidth, rfl, hplaced, hkept⟩ := indirectRow_ok hrow
    have hcount : placed.appended.length = edits.appended.length + encoders.length := by
      rw [hplaced, List.length_append, List.length_map]
    refine loadsAs_consecutive hbitmaps (hholds hkept (by omega) (length_consecutiveRow hslots))
      hslots
      (fun slot hslot => ?_) (by omega) hwidth (.inr ?_)
    · -- the bitmap page of a slot is the one appended for it
      rw [Nat.add_assoc, hstored _ (by omega) (by rw [List.length_append]; omega),
        List.getElem?_append_left (by omega), hplaced, List.getElem?_append_right (by omega),
        Nat.add_sub_cancel_left, List.getElem?_map]
    · rw [hpage, hkept, hcount, Nat.add_assoc]

/-! ## Refused sets -/

/-- A row past the inline window is refused for a member past the last slot, or where no page can be
allocated for a bitmap. -/
theorem indirectRow_error {file : PageFile} {edits : PageEdits} {members : List PageNumber}
    {e : WriteError} (h : indirectRow file edits members = .error e) :
    (e = .unsupported "indirect allocation reference capacity" ∧
        indirectReferenceSlots ≤ highest members / extendedBitmapBits) ∨
      ∃ edits image, allocate file edits image = .error e := by
  simp only [indirectRow, bind_error_iff] at h
  by_cases hcapacity : highest members / extendedBitmapBits + 1 > indirectReferenceSlots
  · rw [refuseIf, if_pos hcapacity] at h
    rcases h with hrefused | ⟨_, hpassed, -⟩
    · cases hrefused
      exact .inl ⟨rfl, Nat.le_of_lt_succ hcapacity⟩
    · cases hpassed
  right
  rw [refuseIf, if_neg hcapacity] at h
  have hcount : highest members / extendedBitmapBits + 1 ≤ indirectReferenceSlots :=
    not_lt.mp hcapacity
  rcases h with hrefused | ⟨_, -, hplaced | ⟨⟨placed, references⟩, hplaced, hrow⟩⟩
  · cases hrefused
  · -- a slot fails only where its bitmap page cannot be allocated
    obtain ⟨done, slot, rest, ⟨before, references⟩, hsplit, -, hstep⟩ := foldlM_error hplaced
    have hslot : slot < highest members / extendedBitmapBits + 1 := by
      rw [← List.mem_range, hsplit]
      simp
    have hwidth : slot * extendedBitmapBits < 2 ^ 64 :=
      lt_of_lt_of_le (Nat.mul_lt_mul_of_pos_right (hslot.trans_le hcount) (by decide)) (by decide)
    obtain ⟨encoder, hencoder, -⟩ := @slotBitmap_filled members _ hwidth
    simp only [placeSlot, hencoder, bind_error_iff] at hstep
    rcases hstep with hfilled | ⟨_, hfilled, hallocate | ⟨_, -, hdone⟩⟩
    · cases hfilled
    · exact ⟨_, _, hallocate⟩
    · cases hdone
  · -- the references always fit their row
    obtain ⟨encoders, hlength, -, rfl, hmax, -, -⟩ := placeSlots_ok hcount hplaced
    have hencoded := encode_consecutiveReferences hcount
      (width_of_maxAppend (Nat.succ_pos _) hmax)
    rw [hencoded] at hrow
    rcases hrow with hfailed | ⟨_, -, hdone⟩
    · cases hfailed
    · cases hdone

/-- A set is refused only for a member past the last slot, or where a page cannot be allocated. -/
theorem create_error {file : PageFile} {edits : PageEdits} {members : List PageNumber}
    {e : WriteError} (h : create file edits members = .error e) :
    (e = .unsupported "indirect allocation reference capacity" ∧
        indirectReferenceSlots ≤ highest members / extendedBitmapBits) ∨
      ∃ edits image, allocate file edits image = .error e := by
  simp only [create, bind_error_iff] at h
  rcases h with hrow | ⟨⟨placed, row⟩, hrow, himage | ⟨image, -, hallocate | ⟨_, -, hdone⟩⟩⟩
  · unfold rowOf at hrow
    split at hrow
    · rename_i hinline
      obtain ⟨bitmap, hbitmap, -, -⟩ := inlineRow_eq hinline
      rw [hbitmap] at hrow
      cases hrow
    · exact indirectRow_error hrow
  · have hlength : row.length = indirectRowBytes := by
      unfold rowOf at hrow
      split at hrow
      · rename_i hinline
        obtain ⟨bitmap, hbitmap, hlength, -⟩ := inlineRow_eq hinline
        rw [hbitmap] at hrow
        cases hrow
        exact hlength
      · obtain ⟨encoders, -, hslots, -, rfl, -, -⟩ := indirectRow_ok hrow
        exact length_consecutiveRow hslots
    obtain ⟨image, hpage⟩ := exists_rowPage hlength
    rw [hpage] at himage
    cases himage
  · exact .inr ⟨_, _, hallocate⟩
  · cases hdone

end UsageMap

end Jet3
