import Jet3.Alloc.MapPages
import Jet3.Definition.TablePages
import Jet3.Library.Cursor

/-!
# Streaming traversal of an owned-page map

`OwnedPages` returns the pages of a table's owned-page map one after the other, holding only the
page of the map record and one bitmap page. Any error exhausts it.

* `SetBitCursor` scans the bits of one bitmap, `MapReferenceCursor` the references of a type-1
  record;
* `OwnedPages.nextPage` returns the next page;
* `OwnedPages.Represents` says which pages are still to come, and `nextPage_represents` that a step
  that does not fail returns the first of them.
-/

namespace Jet3

open Outcome

/-! ## Scanning a bitmap -/

/-- A scan of the bits of a bitmap. The bits of one page cannot overflow its counters. -/
structure SetBitCursor where
  byteIndex : ℕ
  bitInByte : Fin 8
  bitIndex : ℕ
  done : Bool
  deriving DecidableEq, Repr

namespace SetBitCursor

/-- The cursor before the first bit. -/
def new : SetBitCursor :=
  { byteIndex := 0, bitInByte := 0, bitIndex := 0, done := false }

/-- Moves to the next bit; the scan is done after the last one of `byteLen` bytes. -/
def advance (cursor : SetBitCursor) (byteLen : ℕ) : SetBitCursor :=
  let byteIndex := if cursor.bitInByte = 7 then cursor.byteIndex + 1 else cursor.byteIndex
  { byteIndex, bitInByte := cursor.bitInByte + 1, bitIndex := cursor.bitIndex + 1
    done := cursor.done || byteIndex = byteLen }

/-- The bits a scan has left. -/
def remaining (cursor : SetBitCursor) (byteLen : ℕ) : ℕ :=
  8 * (byteLen - cursor.byteIndex) - cursor.bitInByte

/-- The next bit, which may be the first one of the next byte. -/
theorem bitInByte_succ (cursor : SetBitCursor) :
    ((cursor.bitInByte + 1 : Fin 8) : ℕ) =
      if cursor.bitInByte = 7 then 0 else (cursor.bitInByte : ℕ) + 1 := by
  generalize cursor.bitInByte = bit
  revert bit
  decide

/-- An advance leaves fewer bits to look at. -/
theorem remaining_advance_lt {cursor : SetBitCursor} {byteLen : ℕ}
    (h : cursor.byteIndex < byteLen) :
    (cursor.advance byteLen).remaining byteLen < cursor.remaining byteLen := by
  have hbit := cursor.bitInByte.isLt
  simp only [remaining, advance, bitInByte_succ]
  split <;> omega

/-- `next_set_bit`: the index of the next set bit. -/
def nextSetBit (bytes : List UInt8) (cursor : SetBitCursor) : Option ℕ × SetBitCursor :=
  if _h : cursor.done = false ∧ cursor.byteIndex < bytes.length then
    if Bitmap.byteTest (bytes.getD cursor.byteIndex 0) cursor.bitInByte then
      (some cursor.bitIndex, cursor.advance bytes.length)
    else nextSetBit bytes (cursor.advance bytes.length)
  else (none, cursor)
termination_by cursor.remaining bytes.length
decreasing_by exact remaining_advance_lt _h.2

/-- The scan stands before bit `n` of `bytes`. -/
structure At (cursor : SetBitCursor) (bytes : List UInt8) (n : ℕ) : Prop where
  position : 8 * cursor.byteIndex + cursor.bitInByte = n
  bitIndex_eq : cursor.bitIndex = n
  done : cursor.done = true → 8 * bytes.length ≤ n

/-- A new cursor is at the first bit. -/
theorem at_new (bytes : List UInt8) : new.At bytes 0 :=
  ⟨rfl, rfl, by simp [new]⟩

/-- An advance moves the cursor by one bit. -/
theorem At.advance {cursor : SetBitCursor} {bytes : List UInt8} {n : ℕ} (h : cursor.At bytes n) :
    (cursor.advance bytes.length).At bytes (n + 1) := by
  have hposition := h.position
  have hdone := h.done
  refine ⟨?_, by simp [SetBitCursor.advance, h.bitIndex_eq], fun hend => ?_⟩
  · simp only [SetBitCursor.advance, bitInByte_succ]
    split
    · rename_i hseven
      have hval : (cursor.bitInByte : ℕ) = 7 := by rw [hseven]; rfl
      omega
    · omega
  · simp only [SetBitCursor.advance, Bool.or_eq_true, decide_eq_true_iff] at hend
    rcases hend with hend | hend
    · exact Nat.le_succ_of_le (hdone hend)
    · split at hend
      · rename_i hseven
        have hval : (cursor.bitInByte : ℕ) = 7 := by rw [hseven]; rfl
        omega
      · omega

/-- The bit the scan stands before. -/
theorem At.byteTest_eq {cursor : SetBitCursor} {bytes : List UInt8} {n : ℕ}
    (h : cursor.At bytes n) :
    Bitmap.byteTest (bytes.getD cursor.byteIndex 0) cursor.bitInByte = Bitmap.test bytes n := by
  have hbit := cursor.bitInByte.isLt
  have hposition := h.position
  have hbyte : n / 8 = cursor.byteIndex := by omega
  have hmod : n % 8 = cursor.bitInByte := by omega
  rw [Bitmap.test, hbyte, hmod]

/-- A cursor that has not reached the end is at a bit of the bytes. -/
theorem At.lt_length {cursor : SetBitCursor} {bytes : List UInt8} {n : ℕ} (h : cursor.At bytes n)
    (hmore : cursor.byteIndex < bytes.length) : n < 8 * bytes.length := by
  have hbit := cursor.bitInByte.isLt
  have hposition := h.position
  omega

/-- The next set bit is the first member from the position of the scan on. -/
theorem nextSetBit_eq {cursor : SetBitCursor} {bytes : List UInt8} {n : ℕ} (h : cursor.At bytes n) :
    (nextSetBit bytes cursor).1 = (Bitmap.membersFrom bytes n).head? ∧
      ∃ m, (nextSetBit bytes cursor).2.At bytes m ∧
        Bitmap.membersFrom bytes m = (Bitmap.membersFrom bytes n).tail := by
  induction cursor using nextSetBit.induct bytes generalizing n with
  | case1 cursor hmore hset =>
    have hmembers := Bitmap.membersFrom_eq (h.lt_length hmore.2)
    rw [← h.byteTest_eq, if_pos hset] at hmembers
    rw [nextSetBit, dif_pos hmore, if_pos hset, hmembers, h.bitIndex_eq]
    exact ⟨rfl, n + 1, h.advance, rfl⟩
  | case2 cursor hmore hset ih =>
    have hmembers := Bitmap.membersFrom_eq (h.lt_length hmore.2)
    rw [← h.byteTest_eq, if_neg hset] at hmembers
    rw [nextSetBit, dif_pos hmore, if_neg hset, hmembers]
    exact ih h.advance
  | case3 cursor hend =>
    -- the scan ends behind the last bit only
    have hge : 8 * bytes.length ≤ n := by
      have hposition := h.position
      by_contra hlt
      refine hend ⟨?_, by omega⟩
      by_contra hdone
      exact hlt (h.done (by simpa using hdone))
    rw [nextSetBit, dif_neg hend, Bitmap.membersFrom_of_length_le hge]
    exact ⟨rfl, n, h, Bitmap.membersFrom_of_length_le hge⟩

end SetBitCursor

/-! ## The traversal -/

/-- A walk over the references of a type-1 record, at `offset` of the page that holds it. -/
structure MapReferenceCursor where
  references : Range
  offset : ℕ
  deriving DecidableEq, Repr

/-- `next_reference`. -/
def MapReferenceCursor.nextReference (cursor : MapReferenceCursor) (bytes : Page) :
    Except AllocationMapError (Option ℕ × MapReferenceCursor) :=
  if cursor.offset = cursor.references.stop then .ok (none, cursor)
  else do
    let stop := cursor.offset + indirectReferenceLen
    refuseIf (stop > cursor.references.stop)
      (.arithmetic (.arithmetic "measure indirect allocation-map reference"))
    refuseIf (stop > pageBytes)
      (.arithmetic (.arithmetic "access indirect allocation-map reference"))
    return (some (bytes.le cursor.offset indirectReferenceLen), { cursor with offset := stop })

/-- The walk ends at the end of the references and otherwise returns the next whole one. -/
theorem MapReferenceCursor.nextReference_ok_iff {cursor : MapReferenceCursor} {bytes : Page}
    {result : Option ℕ × MapReferenceCursor} :
    cursor.nextReference bytes = .ok result ↔
      (cursor.offset = cursor.references.stop ∧ result = (none, cursor)) ∨
        (cursor.offset ≠ cursor.references.stop ∧
          cursor.offset + indirectReferenceLen ≤ cursor.references.stop ∧
          cursor.offset + indirectReferenceLen ≤ pageBytes ∧
          result = (some (bytes.le cursor.offset indirectReferenceLen),
            { cursor with offset := cursor.offset + indirectReferenceLen })) := by
  unfold nextReference
  by_cases hend : cursor.offset = cursor.references.stop
  · simp [hend, eq_comm]
  · rw [if_neg hend]
    simp only [hend, false_and, false_or, ne_eq, not_false_eq_true, true_and, bind_ok_iff,
      exists_unit, refuseIf_ok_iff, gt_iff_lt, not_lt, pure_ok_iff, eq_comm (a := result)]

/-- `follow_map_page_reference`: zero is an unused slot. -/
def followMapPageReference (reference : ℕ) : Option PageNumber :=
  if reference ≠ 0 then some reference else none

/-- The page bit `relativeBit` of the bitmap in slot `slot` stands for. -/
def absoluteExtendedPage (slot relativeBit : ℕ) : Except AllocationTraversalError PageNumber := do
  refuseIf (relativeBit ≥ extendedBitmapBits) (.relativeBitOutOfRange slot relativeBit)
  refuseIf (¬slot * extendedBitmapBits + relativeBit < 2 ^ 64)
    (.extendedPageOverflow slot relativeBit)
  return slot * extendedBitmapBits + relativeBit

/-- Where the traversal of a type-1 record stands; `active` is the scan of the bitmap page it holds,
with the slot of that page. -/
structure IndirectMapState where
  recordPage : PageNumber
  references : MapReferenceCursor
  nextSlot : ℕ
  zeroSeen : Bool
  active : Option (ℕ × SetBitCursor)
  walker : PageChainWalker

/-- How far a traversal is, in the row or on a bitmap page. -/
inductive OwnedMapState where
  | inline (startPage : PageNumber) (bitmap : Range) (bits : SetBitCursor)
  | indirect (state : IndirectMapState)

/-- A traversal of the pages of a map; `failed` ends it for good. -/
structure OwnedPages where
  file : PageFile
  usagePage : Page
  extendedPage : Page
  state : OwnedMapState
  failed : Bool

/-- The range of a payload of a record, on the page of the record. -/
def absoluteRecordRange (record relative : Range) : Except AllocationTraversalError Range := do
  let start := record.start + relative.start
  let stop := record.start + relative.stop
  refuseIf (start > stop ∨ stop > record.stop)
    (.resource (.arithmetic "validate allocation-map payload range"))
  return { start, stop }

namespace OwnedPages

/-- The state of a traversal before its first page. -/
def startState (locator : MapRowLocator) (record : UsageMapRecord) :
    AllocationMapLayout → Except AllocationTraversalError OwnedMapState
  | .inline startPage bitmap => do
    let bitmap ← absoluteRecordRange record.range bitmap
    return .inline startPage bitmap .new
  | .indirect references => do
    let references ← absoluteRecordRange record.range references
    return .indirect
      { recordPage := locator.page, references := { references, offset := references.start }
        nextSlot := 0, zeroSeen := false, active := none, walker := .new }

/-- Starts the traversal of the map at `locator`. -/
def openMap (file : PageFile) (locator : MapRowLocator) :
    Except AllocationTraversalError OwnedPages := do
  let classified ← (file.readClassifiedPage locator.page).mapError .page
  let record ← (locateUsageMap classified locator).mapError .usageMap
  let decoded ← (decodeAllocationMapLayout record.raw).mapError .allocationMap
  let state ← startState locator record decoded
  return { file, usagePage := classified.raw, extendedPage := Block.fill pageBytes 0, state
           failed := false }

/-- `OwnedPages::new`: the traversal of the pages a table owns. -/
def new (file : PageFile) (tableRoot : PageNumber) :
    Except AllocationTraversalError OwnedPages := do
  let classified ← (file.readClassifiedPage tableRoot).mapError .page
  let locations ← (locateTableMaps file.pageCount classified).mapError .mapLocation
  openMap file locations.owned

/-- What one pass of the loop leads to: the result of the call, or another pass. -/
inductive Pass where
  | result (page : Option PageNumber)
  | again

/-- A listed page is a page of the file. -/
def checkPage (file : PageFile) (page : PageNumber) : Except AllocationTraversalError Unit :=
  (validateReference file.pageCount page).mapError (.invalidReference page)

/-- One pass over the bits in the row. -/
def inlinePass (pages : OwnedPages) (startPage : PageNumber) (bitmap : Range)
    (bits : SetBitCursor) :
    Except AllocationTraversalError (Pass × OwnedPages) :=
  let (bit, bits) := bits.nextSetBit (pages.usagePage.slice bitmap.start bitmap.stop)
  let pages := { pages with state := .inline startPage bitmap bits }
  match bit with
  | none => .ok (.result none, pages)
  | some bit => do
    refuseIf (¬startPage + bit < 2 ^ 64) (.inlinePageOverflow startPage bit)
    checkPage pages.file (startPage + bit)
    return (.result (some (startPage + bit)), pages)

/-- A pass while a bitmap page is scanned. -/
def activePass (pages : OwnedPages) (map : IndirectMapState) (slot : ℕ) (bits : SetBitCursor) :
    Except AllocationTraversalError (Pass × OwnedPages) :=
  match bits.nextSetBit (pages.extendedPage.slice extendedBitmapOffset pageBytes) with
  | (none, _) => .ok (.again, { pages with state := .indirect { map with active := none } })
  | (some bit, bits) => do
    let page ← absoluteExtendedPage slot bit
    checkPage pages.file page
    return (.result (some page),
      { pages with state := .indirect { map with active := some (slot, bits) } })

/-- A pass that takes the next reference. -/
def referencePass (pages : OwnedPages) (map : IndirectMapState) :
    Except AllocationTraversalError (Pass × OwnedPages) := do
  let (reference, references) ←
    (map.references.nextReference pages.usagePage).mapError .allocationMap
  let some raw := reference
    | return (.result none, { pages with state := .indirect { map with references } })
  let slot := map.nextSlot
  let next := { map with references, nextSlot := slot + 1 }
  let some page := followMapPageReference raw
    | return (.again, { pages with state := .indirect { next with zeroSeen := true } })
  refuseIf map.zeroSeen (.nonzeroAfterNullSlot slot page)
  refuseIf (page = map.recordPage) (.selfReference map.recordPage)
  let (classified, walker) ← map.walker.follow pages.file page .extendedUsageBitmap
  return (.again,
    { pages with
      extendedPage := classified.raw
      state := .indirect { next with active := some (slot, .new), walker } })

/-- One pass of the loop of `next_page_inner`. -/
def pass (pages : OwnedPages) : Except AllocationTraversalError (Pass × OwnedPages) :=
  match pages.state with
  | .inline startPage bitmap bits => pages.inlinePass startPage bitmap bits
  | .indirect map =>
    match map.active with
    | some (slot, bits) => pages.activePass map slot bits
    | none => pages.referencePass map

/-- The passes a call can still make: every reference may lead to a bitmap page, which is
scanned. -/
def work (pages : OwnedPages) : ℕ :=
  match pages.state with
  | .inline _ _ _ => 0
  | .indirect map =>
    2 * (map.references.references.stop - map.references.offset) +
      if map.active.isSome then 1 else 0

/-- What the pass that takes a reference can do: end the traversal, pass over an empty slot, or hold
the bitmap page of a used one. -/
theorem referencePass_ok {pages next : OwnedPages} {map : IndirectMapState} {outcome : Pass}
    (h : pages.referencePass map = .ok (outcome, next)) :
    (map.references.offset = map.references.references.stop ∧ outcome = .result none ∧
        next = { pages with state := .indirect map }) ∨
      (map.references.offset + indirectReferenceLen ≤ map.references.references.stop ∧
        outcome = .again ∧
        pages.usagePage.le map.references.offset indirectReferenceLen = 0 ∧
        next = { pages with
          state := .indirect { map with
            references := { map.references with
              offset := map.references.offset + indirectReferenceLen }
            nextSlot := map.nextSlot + 1, zeroSeen := true } }) ∨
      (map.references.offset + indirectReferenceLen ≤ map.references.references.stop ∧
        outcome = .again ∧
        pages.usagePage.le map.references.offset indirectReferenceLen ≠ 0 ∧
        ∃ image,
          pages.file[pages.usagePage.le map.references.offset indirectReferenceLen]? = some image ∧
          next = { pages with
            extendedPage := image
            state := .indirect { map with
              references := { map.references with
                offset := map.references.offset + indirectReferenceLen }
              nextSlot := map.nextSlot + 1, active := some (map.nextSlot, .new)
              walker :=
                { visited := pages.usagePage.le map.references.offset indirectReferenceLen ::
                    map.walker.visited } } }) := by
  simp only [referencePass, bind_ok_iff, mapError_ok_iff, MapReferenceCursor.nextReference_ok_iff]
    at h
  obtain ⟨_, ⟨hend, rfl⟩ | ⟨-, hle, -, rfl⟩, h⟩ := h
  · cases h
    exact .inl ⟨hend, rfl, rfl⟩
  · right
    by_cases hzero : pages.usagePage.le map.references.offset indirectReferenceLen = 0
    · simp only [followMapPageReference, hzero, ne_eq, not_true_eq_false, ↓reduceIte] at h
      cases h
      exact .inl ⟨hle, rfl, hzero, rfl⟩
    · simp only [followMapPageReference, hzero, ne_eq, not_false_eq_true, ↓reduceIte, bind_ok_iff,
        exists_unit, PageChainWalker.follow, mapError_ok_iff, PageFile.readClassifiedPage_ok_iff,
        pure_ok_iff, Prod.exists, Prod.mk.injEq] at h
      obtain ⟨-, -, classified, walker, ⟨-, _, ⟨image, himage, rfl⟩, -, -, rfl, rfl⟩, rfl, rfl⟩ := h
      exact .inr ⟨hle, rfl, hzero, image, himage, rfl⟩

/-- What the pass over a bitmap page can do: leave it, or return a page in its stretch. -/
theorem activePass_ok {pages next : OwnedPages} {map : IndirectMapState} {slot : ℕ}
    {bits : SetBitCursor} {outcome : Pass}
    (h : pages.activePass map slot bits = .ok (outcome, next)) :
    ((bits.nextSetBit (pages.extendedPage.slice extendedBitmapOffset pageBytes)).1 = none ∧
        outcome = .again ∧ next = { pages with state := .indirect { map with active := none } }) ∨
      ∃ bit, (bits.nextSetBit (pages.extendedPage.slice extendedBitmapOffset pageBytes)).1 =
        some bit ∧
        slot * extendedBitmapBits + bit < 2 ^ 64 ∧
        slot * extendedBitmapBits + bit < pages.file.pageCount ∧
        outcome = .result (some (slot * extendedBitmapBits + bit)) ∧
        next = { pages with
          state := .indirect { map with
            active := some (slot,
              (bits.nextSetBit
                (pages.extendedPage.slice extendedBitmapOffset pageBytes)).2) } } := by
  unfold activePass at h
  generalize bits.nextSetBit (pages.extendedPage.slice extendedBitmapOffset pageBytes) = scan at h ⊢
  obtain ⟨bit, bits⟩ := scan
  rcases bit with _ | bit
  · cases h
    exact .inl ⟨rfl, rfl, rfl⟩
  · simp only [bind_ok_iff, exists_unit, absoluteExtendedPage, refuseIf_ok_iff, not_not,
      pure_ok_iff, checkPage, mapError_ok_iff, validateReference, Prod.mk.injEq] at h
    obtain ⟨_, ⟨-, hwidth, rfl⟩, hinside, rfl, rfl⟩ := h
    exact .inr ⟨bit, rfl, hwidth, hinside, rfl, rfl⟩

/-- What the pass over an inline bitmap can do: end the traversal or return a page. -/
theorem inlinePass_ok {pages next : OwnedPages} {startPage : PageNumber} {bitmap : Range}
    {bits : SetBitCursor} {outcome : Pass}
    (h : pages.inlinePass startPage bitmap bits = .ok (outcome, next)) :
    next = { pages with
        state := .inline startPage bitmap
          (bits.nextSetBit (pages.usagePage.slice bitmap.start bitmap.stop)).2 } ∧
      outcome = .result
        ((bits.nextSetBit (pages.usagePage.slice bitmap.start bitmap.stop)).1.map (startPage + ·)) ∧
      ∀ bit, (bits.nextSetBit (pages.usagePage.slice bitmap.start bitmap.stop)).1 = some bit →
        startPage + bit < 2 ^ 64 ∧ startPage + bit < pages.file.pageCount := by
  unfold inlinePass at h
  generalize bits.nextSetBit (pages.usagePage.slice bitmap.start bitmap.stop) = scan at h ⊢
  obtain ⟨bit, bits⟩ := scan
  rcases bit with _ | bit
  · cases h
    exact ⟨rfl, rfl, by simp⟩
  · simp only [bind_ok_iff, exists_unit, refuseIf_ok_iff, not_not, pure_ok_iff, checkPage,
      mapError_ok_iff, validateReference, Prod.mk.injEq] at h
    obtain ⟨hwidth, hinside, rfl, rfl⟩ := h
    exact ⟨rfl, rfl, by rintro _ ⟨⟩; exact ⟨hwidth, hinside⟩⟩

/-- Another pass follows only once a bitmap page is used up or a reference is taken. -/
theorem work_lt_of_again {pages next : OwnedPages} (h : pages.pass = .ok (.again, next)) :
    next.work < pages.work := by
  unfold pass at h
  split at h
  · cases (inlinePass_ok h).2.1
  · rename_i map hstate
    split at h
    · rename_i slot bits hactive
      obtain ⟨-, -, rfl⟩ | ⟨bit, -, -, -, ⟨⟩, -⟩ := activePass_ok h
      simp [work, hstate, hactive]
    · rename_i hactive
      have hlen : indirectReferenceLen = 4 := rfl
      obtain ⟨-, ⟨⟩, -⟩ | ⟨hle, -, -, rfl⟩ | ⟨hle, -, -, image, -, rfl⟩ := referencePass_ok h
      · simp only [work, hstate, hactive]
        simp only [Option.isSome_none, Bool.false_eq_true, ↓reduceIte]
        omega
      · simp only [work, hstate, hactive]
        simp only [Option.isSome_none, Option.isSome_some, Bool.false_eq_true, ↓reduceIte]
        omega

/-- The loop of `next_page_inner`: passes until one has a result. -/
def nextPageInner (pages : OwnedPages) :
    Except AllocationTraversalError (Option PageNumber × OwnedPages) :=
  match _h : pages.pass with
  | .error e => .error e
  | .ok (.result page, next) => .ok (page, next)
  | .ok (.again, next) => nextPageInner next
termination_by pages.work
decreasing_by exact work_lt_of_again _h

/-- `next_page`: any error exhausts the traversal, so malformed input cannot be skipped by calling
it again. -/
def nextPage (pages : OwnedPages) :
    Except AllocationTraversalError (Option PageNumber) × OwnedPages :=
  if pages.failed then (.ok none, pages)
  else
    match pages.nextPageInner with
    | .error e => (.error e, { pages with failed := true })
    | .ok (page, next) => (.ok page, next)

/-! ## The pages still to come -/

/-- The references of a type-1 record from offset `base` of its page on: the slots up to the last
used one name the bitmap pages `spans` are read from, the others are zero. -/
structure SlotTable (file : PageFile) (usagePage : Page) (base count : ℕ) (spans : List BitSpan) :
    Prop where
  reference : ∀ slot < count, usagePage.le (base + 4 * slot) indirectReferenceLen =
    (spans[slot]?.map BitSpan.page).getD 0
  span : ∀ slot span, spans[slot]? = some span →
    span.page ≠ 0 ∧ span.first = slot * extendedBitmapBits ∧
      ∃ image, file[span.page]? = some image ∧
        span.bytes = image.slice extendedBitmapOffset pageBytes
  length_le : spans.length ≤ count

/-- What the checks of a traversal ask of the slots still to come: no slot is used behind an empty
one, and the bitmap pages are of their kind, apart from each other and from the page of the
record. -/
structure Followable (file : PageFile) (map : IndirectMapState) (spans : List BitSpan) : Prop where
  stop_le : map.references.references.stop ≤ pageBytes
  kind : ∀ span ∈ spans, span.page ≠ map.recordPage ∧
    ∀ image, file[span.page]? = some image →
      classifyPage span.page image = .extendedUsageBitmap
  distinct : (spans.map BitSpan.page).Nodup
  zeroSeen : map.zeroSeen = true → spans.length ≤ map.nextSlot
  visited : ∀ page ∈ map.walker.visited, page ∈ (spans.take map.nextSlot).map BitSpan.page

/-- The scan of a bitmap page does not matter to the slots. -/
theorem Followable.withActive {file : PageFile} {map : IndirectMapState} {spans : List BitSpan}
    (h : Followable file map spans) (active : Option (ℕ × SetBitCursor)) :
    Followable file { map with active } spans :=
  ⟨h.stop_le, h.kind, h.distinct, h.zeroSeen, h.visited⟩

/-- The pages a scan of the held bitmap page still returns. -/
def ActivePages (extendedPage : Page) (active : Option (ℕ × SetBitCursor)) (l : List PageNumber) :
    Prop :=
  match active with
  | none => l = []
  | some (slot, bits) =>
    ∃ n, bits.At (extendedPage.slice extendedBitmapOffset pageBytes) n ∧
      l = (Bitmap.membersFrom (extendedPage.slice extendedBitmapOffset pageBytes) n).map
        (slot * extendedBitmapBits + ·)

/-- The pages a traversal still returns. -/
def Represents (pages : OwnedPages) (l : List PageNumber) : Prop :=
  match pages.state with
  | .inline startPage bitmap bits =>
    ∃ n, bits.At (pages.usagePage.slice bitmap.start bitmap.stop) n ∧
      l = (Bitmap.membersFrom (pages.usagePage.slice bitmap.start bitmap.stop) n).map
        (startPage + ·)
  | .indirect map =>
    ∃ base count spans current,
      SlotTable pages.file pages.usagePage base count spans ∧ Followable pages.file map spans ∧
        map.nextSlot ≤ count ∧ map.references.offset = base + 4 * map.nextSlot ∧
        map.references.references.stop = base + 4 * count ∧
        ActivePages pages.extendedPage map.active current ∧
        l = current ++ (spans.drop map.nextSlot).flatMap BitSpan.pages

/-- What a pass returns is the first page still to come; a pass without a result leaves the same
pages to come. -/
def Pass.Takes (outcome : Pass) (next : OwnedPages) (l : List PageNumber) : Prop :=
  match outcome with
  | .result page => page = l.head? ∧ next.Represents l.tail
  | .again => next.Represents l

/-- A pass over an inline row takes the first of the pages that are left, or nothing. -/
theorem inlinePass_takes {pages next : OwnedPages} {l : List PageNumber} {outcome : Pass}
    {startPage : PageNumber} {bitmap : Range} {bits : SetBitCursor}
    (hstate : pages.state = .inline startPage bitmap bits) (h : pages.Represents l)
    (hpass : pages.inlinePass startPage bitmap bits = .ok (outcome, next)) :
    outcome.Takes next l := by
  unfold Represents at h
  simp only [hstate] at h
  obtain ⟨n, hat, rfl⟩ := h
  obtain ⟨rfl, rfl, -⟩ := inlinePass_ok hpass
  obtain ⟨hbit, m, hat', hrest⟩ := SetBitCursor.nextSetBit_eq hat
  refine ⟨?_, m, hat', ?_⟩
  · rw [hbit, List.head?_map]
  · rw [← List.map_tail, ← hrest]

/-- So does a pass over the bitmap page that is open. -/
theorem activePass_takes {pages next : OwnedPages} {l : List PageNumber} {outcome : Pass}
    {map : IndirectMapState} {slot : ℕ} {bits : SetBitCursor} (hstate : pages.state = .indirect map)
    (hactive : map.active = some (slot, bits)) (h : pages.Represents l)
    (hpass : pages.activePass map slot bits = .ok (outcome, next)) : outcome.Takes next l := by
  unfold Represents at h
  simp only [hstate, hactive] at h
  obtain ⟨base, count, spans, _, htable, hfollow, hslot, hoffset, hstop, ⟨n, hat, rfl⟩, rfl⟩ := h
  obtain ⟨hbit, m, hat', hrest⟩ := SetBitCursor.nextSetBit_eq hat
  obtain ⟨hnone, rfl, rfl⟩ | ⟨bit, hsome, -, -, rfl, rfl⟩ := activePass_ok hpass
  · -- the bitmap is used up
    rw [hnone, eq_comm, List.head?_eq_none_iff] at hbit
    rw [hbit]
    exact ⟨base, count, spans, [], htable, hfollow.withActive none, hslot, hoffset, hstop, rfl, rfl⟩
  · rw [hsome, eq_comm, List.head?_eq_some_iff] at hbit
    obtain ⟨rest, hmembers⟩ := hbit
    rw [hmembers] at hrest ⊢
    exact ⟨rfl, base, count, spans, _, htable, hfollow.withActive _, hslot, hoffset, hstop,
      ⟨m, hat', rfl⟩, by rw [hrest]; rfl⟩

/-- So does a pass over the references. -/
theorem referencePass_takes {pages next : OwnedPages} {l : List PageNumber} {outcome : Pass}
    {map : IndirectMapState} (hstate : pages.state = .indirect map) (hactive : map.active = none)
    (h : pages.Represents l) (hpass : pages.referencePass map = .ok (outcome, next)) :
    outcome.Takes next l := by
  have hlen : indirectReferenceLen = 4 := rfl
  unfold Represents at h
  simp only [hstate, hactive] at h
  obtain ⟨base, count, spans, _, htable, hfollow, hslot, hoffset, hstop, rfl, rfl⟩ := h
  rw [List.nil_append]
  obtain ⟨hend, rfl, rfl⟩ | ⟨hle, rfl, hzero, rfl⟩ | ⟨hle, rfl, hused, image, himage, rfl⟩ :=
    referencePass_ok hpass
  · -- no slot is left
    have hcount : map.nextSlot = count := by omega
    have hdrop : spans.drop map.nextSlot = [] :=
      List.drop_of_length_le (hcount ▸ htable.length_le)
    rw [hdrop]
    refine ⟨rfl, base, count, spans, [], htable, hfollow, hslot, hoffset, hstop, ?_, ?_⟩
    · show ActivePages _ map.active []
      rw [hactive]
      rfl
    · show [] = [] ++ (spans.drop map.nextSlot).flatMap BitSpan.pages
      rw [hdrop]
      rfl
  · -- the slot is empty, so no span is left
    have hreference := htable.reference map.nextSlot (by omega)
    rw [← hoffset, hzero] at hreference
    have hge : spans.length ≤ map.nextSlot := by
      by_contra hlt
      have hspan := List.getElem?_eq_getElem (not_le.mp hlt)
      rw [hspan] at hreference
      exact (htable.span _ _ hspan).1 hreference.symm
    refine ⟨base, count, spans, [], htable, ⟨hfollow.stop_le, hfollow.kind, hfollow.distinct,
      fun _ => Nat.le_succ_of_le hge, fun page hpage => ?_⟩, by dsimp only; omega,
      by dsimp only; omega, hstop, ?_, ?_⟩
    · have hvisited := hfollow.visited page hpage
      rwa [List.take_of_length_le hge, ← List.take_of_length_le (Nat.le_succ_of_le hge)] at hvisited
    · show ActivePages _ map.active []
      rw [hactive]
      rfl
    · rw [List.drop_of_length_le hge, List.drop_of_length_le (Nat.le_succ_of_le hge)]
      rfl
  · -- the slot names the bitmap page of its span
    have hreference := htable.reference map.nextSlot (by omega)
    rw [← hoffset] at hreference
    have hlt : map.nextSlot < spans.length := by
      by_contra hge
      rw [List.getElem?_eq_none (not_lt.mp hge)] at hreference
      exact hused hreference
    have hspan := List.getElem?_eq_getElem hlt
    rw [hspan] at hreference
    obtain ⟨-, hfirst, image', himage', hbytes⟩ := htable.span _ _ hspan
    rw [hreference] at himage
    cases himage.symm.trans himage'
    have htake : (spans.take (map.nextSlot + 1)).map BitSpan.page =
        (spans.take map.nextSlot).map BitSpan.page ++ [spans[map.nextSlot].page] := by
      rw [← List.take_append_getElem hlt, List.map_append, List.map_singleton]
    refine ⟨base, count, spans, _, htable, ⟨hfollow.stop_le, hfollow.kind, hfollow.distinct,
      fun hzero => absurd (hfollow.zeroSeen hzero) (not_le.mpr hlt), fun page hpage => ?_⟩,
      by dsimp only; omega, by dsimp only; omega, hstop, ⟨0, SetBitCursor.at_new _, rfl⟩, ?_⟩
    · -- the page just followed is that of the slot
      rw [htake, List.mem_append, List.mem_singleton]
      rcases List.mem_cons.mp hpage with hnew | hold
      · exact .inr (hnew.trans hreference)
      · exact .inl (hfollow.visited page hold)
    rw [List.drop_eq_getElem_cons hlt, List.flatMap_cons, BitSpan.pages, hfirst, hbytes,
      Bitmap.membersFrom_zero]

/-- So does every pass. -/
theorem pass_takes {pages next : OwnedPages} {l : List PageNumber} {outcome : Pass}
    (h : pages.Represents l) (hpass : pages.pass = .ok (outcome, next)) : outcome.Takes next l := by
  unfold pass at hpass
  split at hpass
  · rename_i hstate
    exact inlinePass_takes hstate h hpass
  · rename_i map hstate
    split at hpass
    · rename_i hactive
      exact activePass_takes hstate hactive h hpass
    · rename_i hactive
      exact referencePass_takes hstate hactive h hpass

/-- A call hands out the first page that is left, and none where there is none. -/
theorem nextPageInner_represents {pages next : OwnedPages} {l : List PageNumber}
    {page : Option PageNumber} (h : pages.Represents l)
    (hok : pages.nextPageInner = .ok (page, next)) : page = l.head? ∧ next.Represents l.tail := by
  induction pages using nextPageInner.induct with
  | case1 pages e hpass =>
    rw [nextPageInner, hpass] at hok
    cases hok
  | case2 pages page' next' hpass =>
    rw [nextPageInner, hpass] at hok
    cases hok
    exact pass_takes h hpass
  | case3 pages next' hpass ih =>
    rw [nextPageInner, hpass] at hok
    exact ih (pass_takes h hpass) hok

/-- The next reference is followed without an error. -/
theorem Followable.exists_referencePass {pages : OwnedPages} {map : IndirectMapState}
    {base count : ℕ}
    {spans : List BitSpan} (h : Followable pages.file map spans)
    (htable : SlotTable pages.file pages.usagePage base count spans) (hslot : map.nextSlot ≤ count)
    (hoffset : map.references.offset = base + 4 * map.nextSlot)
    (hstop : map.references.references.stop = base + 4 * count) :
    ∃ result, pages.referencePass map = .ok result := by
  have hlen : indirectReferenceLen = 4 := rfl
  have hle := h.stop_le
  rcases hslot.eq_or_lt with hend | hlt
  · -- no slot is left
    have hnext : (map.references.nextReference pages.usagePage).mapError
        AllocationTraversalError.allocationMap = .ok (none, map.references) :=
      mapError_ok_iff.mpr (MapReferenceCursor.nextReference_ok_iff.mpr
        (.inl ⟨by rw [hoffset, hstop, hend], rfl⟩))
    rw [referencePass, hnext]
    exact ⟨_, rfl⟩
  have hreference := htable.reference map.nextSlot hlt
  rw [← hoffset] at hreference
  have hnext : (map.references.nextReference pages.usagePage).mapError
      AllocationTraversalError.allocationMap = .ok
        (some (pages.usagePage.le map.references.offset indirectReferenceLen),
          { map.references with offset := map.references.offset + indirectReferenceLen }) :=
    mapError_ok_iff.mpr (MapReferenceCursor.nextReference_ok_iff.mpr
      (.inr ⟨by omega, by omega, by omega, rfl⟩))
  rcases hspan : spans[map.nextSlot]? with _ | span
  · -- an empty slot is passed over
    rw [hspan] at hreference
    rw [referencePass, hnext, hreference]
    exact ⟨_, rfl⟩
  · -- the bitmap page of a slot has not been visited
    rw [hspan] at hreference
    obtain ⟨hlength, hget⟩ := List.getElem?_eq_some_iff.mp hspan
    obtain ⟨hpage, -, image, himage, -⟩ := htable.span _ _ hspan
    obtain ⟨hrecord, hkind⟩ := h.kind span (List.mem_of_getElem? hspan)
    have hseen : ¬map.zeroSeen = true := fun hzero => absurd (h.zeroSeen hzero) (not_le.mpr hlength)
    have hvisited : span.page ∉ map.walker.visited := by
      intro hmem
      have hdistinct := h.distinct
      rw [← List.take_append_drop map.nextSlot spans, List.map_append] at hdistinct
      refine List.disjoint_of_nodup_append hdistinct (h.visited _ hmem) ?_
      rw [List.drop_eq_getElem_cons hlength, hget, List.map_cons]
      exact List.mem_cons_self
    have hfollow : map.walker.follow pages.file span.page .extendedUsageBitmap = .ok
        ({ number := span.page, kind := classifyPage span.page image, raw := image },
          { visited := span.page :: map.walker.visited }) := by
      simp only [PageChainWalker.follow, bind_ok_iff, exists_unit, mapError_ok_iff,
        validateReference, refuseIf_ok_iff, not_not, PageFile.readClassifiedPage_ok_iff,
        pure_ok_iff]
      exact ⟨(List.getElem?_eq_some_iff.mp himage).1, _, ⟨image, himage, rfl⟩, hkind image himage,
        hvisited, rfl⟩
    rw [Option.map_some, Option.getD_some] at hreference
    have hused : followMapPageReference span.page = some span.page := if_pos hpage
    rw [referencePass, hnext, hreference]
    simp only [bind, Except.bind, hused, refuseIf, if_neg hseen, if_neg hrecord, hfollow]
    exact ⟨_, rfl⟩

/-- The pages of a map that loads are the ones its traversal starts with. -/
theorem openMap_represents {file : PageFile} {locator : MapRowLocator} {map : MapBits}
    {pages : OwnedPages} (hload : MapBits.load file locator = .ok map)
    (hopen : openMap file locator = .ok pages) : pages.Represents map.pages := by
  simp only [openMap, bind_ok_iff, mapError_ok_iff, PageFile.readClassifiedPage_ok_iff,
    pure_ok_iff] at hopen
  obtain ⟨_, ⟨image, himage, rfl⟩, record, hrecord, layout, hlayout, state, hstate, rfl⟩ := hopen
  obtain ⟨image', record', himage', hrecord', hspans⟩ := MapBits.load_ok hload
  cases himage.symm.trans himage'
  cases hrecord.symm.trans hrecord'
  obtain ⟨hraw, hlength⟩ := UsageMapRecord.of_locate hrecord
  dsimp only at hraw
  rcases hspans with ⟨hdecoded, hspans⟩ | ⟨hdecoded, hwidth, hslots⟩
  · -- the bitmap of an inline record is scanned on the page of the record
    cases hlayout.symm.trans hdecoded
    simp only [startState, absoluteRecordRange, bind_ok_iff, exists_unit, refuseIf_ok_iff,
      pure_ok_iff] at hstate
    obtain ⟨_, ⟨-, rfl⟩, rfl⟩ := hstate
    refine ⟨0, SetBitCursor.at_new _, ?_⟩
    dsimp only
    rw [MapBits.pages, hspans, List.flatMap_singleton, BitSpan.pages, Bitmap.membersFrom_zero,
      hlength, ← Block.drop_slice, ← hraw]
  · -- the references of an indirect record are the slots its spans were loaded from
    cases hlayout.symm.trans hdecoded
    simp only [startState, absoluteRecordRange, bind_ok_iff, exists_unit, refuseIf_ok_iff,
      pure_ok_iff] at hstate
    obtain ⟨_, ⟨-, rfl⟩, rfl⟩ := hstate
    have hbytes : indirectRowBytes = 1 + 4 * indirectReferenceSlots := rfl
    have hdistinct := List.nodup_cons.mp hslots.distinct
    have hstop : record.range.start + record.raw.length ≤ pageBytes :=
      hlength ▸ UsageMapRecord.stop_le hrecord
    have hfollow : ∀ span ∈ map.spans, span.page ≠ locator.page ∧
        ∀ image, file[span.page]? = some image →
          classifyPage span.page image = .extendedUsageBitmap := by
      intro span hspan
      obtain ⟨slot, hslot⟩ := List.mem_iff_getElem?.mp hspan
      obtain ⟨-, hpage, -, -, image, himage, hheader, -⟩ := hslots.slot slot span hslot
      refine ⟨fun heq => hdistinct.1 (heq ▸ List.mem_map_of_mem hspan), fun other hother => ?_⟩
      cases himage.symm.trans hother
      exact (classifyPage_eq_iff hpage (by simp) (by simp)).mpr (List.cons.inj hheader).1
    refine ⟨record.range.start + 1, indirectReferenceSlots, map.spans, [], ⟨fun slot hslot => ?_,
      fun slot span hspan => ?_, hslots.length_le⟩,
      ⟨hstop, hfollow, hdistinct.2, by simp, by simp [PageChainWalker.new]⟩, Nat.zero_le _, rfl, ?_,
      rfl, rfl⟩
    · have hreference : image.le (record.range.start + 1 + 4 * slot) indirectReferenceLen =
          MapBits.reference record.raw slot := by
        have hlen : indirectReferenceLen = 4 := rfl
        rw [MapBits.reference, hlen, hraw, Block.take_drop_slice _ (by omega), Block.le,
          Nat.add_assoc]
      rw [hreference]
      rcases Nat.lt_or_ge slot map.spans.length with hlt | hge
      · rw [List.getElem?_eq_getElem hlt]
        exact (hslots.slot slot _ (List.getElem?_eq_getElem hlt)).reference_eq
      · rw [List.getElem?_eq_none hge]
        exact hslots.empty slot hge hslot
    · obtain ⟨-, hpage, hfirst, -, image', himage', -, hbitmap⟩ := hslots.slot slot span hspan
      exact ⟨hpage, hfirst, image', himage', hbitmap⟩
    · dsimp only
      omega

/-- A pass meets no error where the pages still to come are inside the file. -/
theorem Represents.exists_pass {pages : OwnedPages} {l : List PageNumber} (h : pages.Represents l)
    (hinside : ∀ page ∈ l, page < 2 ^ 64 ∧ page < pages.file.pageCount) :
    ∃ result, pages.pass = .ok result := by
  unfold pass
  unfold Represents at h
  split at h
  · rename_i startPage bitmap bits hstate
    obtain ⟨n, hat, rfl⟩ := h
    -- an inline row: the next bit is of a page inside the file, or there is none
    obtain ⟨hbit, -⟩ := SetBitCursor.nextSetBit_eq hat
    simp only [inlinePass]
    generalize bits.nextSetBit (pages.usagePage.slice bitmap.start bitmap.stop) = scan at hbit
    obtain ⟨bit, bits'⟩ := scan
    rcases bit with _ | bit
    · exact ⟨_, rfl⟩
    · obtain ⟨hwidth, hpage⟩ := hinside _ (List.mem_map_of_mem (List.mem_of_mem_head? hbit.symm))
      exact ⟨_, bind_ok_iff.mpr ⟨(), refuseIf_ok_iff.mpr (not_not.mpr hwidth), bind_ok_iff.mpr
        ⟨(), mapError_ok_iff.mpr (refuseIf_ok_iff.mpr (not_not.mpr hpage)), rfl⟩⟩⟩
  · rename_i map hstate
    obtain ⟨base, count, spans, current, htable, hfollow, hslot, hoffset, hstop, hcurrent, rfl⟩ := h
    rcases hactive : map.active with _ | ⟨slot, bits⟩
    · exact hfollow.exists_referencePass htable hslot hoffset hstop
    · rw [hactive] at hcurrent
      obtain ⟨n, hat, rfl⟩ := hcurrent
      -- a bitmap page: its bits are below its width, and their pages inside the file
      obtain ⟨hbit, -⟩ := SetBitCursor.nextSetBit_eq hat
      simp only [activePass]
      generalize bits.nextSetBit (pages.extendedPage.slice extendedBitmapOffset pageBytes) = scan
        at hbit
      obtain ⟨bit, bits'⟩ := scan
      rcases bit with _ | bit
      · exact ⟨_, rfl⟩
      · have hmem := List.mem_of_mem_head? hbit.symm
        obtain ⟨hwidth, hpage⟩ := hinside _
          (List.mem_append_left _ (List.mem_map_of_mem hmem))
        have hbit' : bit < extendedBitmapBits := by
          refine (Bitmap.lt_of_mem_membersFrom hmem).trans_eq ?_
          rw [Block.length_slice]
          rfl
        exact ⟨_, bind_ok_iff.mpr ⟨_, bind_ok_iff.mpr ⟨(), refuseIf_ok_iff.mpr (not_le.mpr hbit'),
          bind_ok_iff.mpr ⟨(), refuseIf_ok_iff.mpr (not_not.mpr hwidth), rfl⟩⟩, bind_ok_iff.mpr
          ⟨(), mapError_ok_iff.mpr (refuseIf_ok_iff.mpr (not_not.mpr hpage)), rfl⟩⟩⟩

/-- A pass keeps the file, and the page it returns is inside it. -/
theorem pass_inside {pages next : OwnedPages} {outcome : Pass}
    (h : pages.pass = .ok (outcome, next)) :
    (next.file = pages.file ∧ next.failed = pages.failed) ∧
      ∀ page, outcome = .result (some page) → page < 2 ^ 64 ∧ page < pages.file.pageCount := by
  unfold pass at h
  split at h
  · obtain ⟨rfl, rfl, hbit⟩ := inlinePass_ok h
    refine ⟨⟨rfl, rfl⟩, fun page hpage => ?_⟩
    rw [Pass.result.injEq, Option.map_eq_some_iff] at hpage
    obtain ⟨bit, hsome, rfl⟩ := hpage
    exact hbit bit hsome
  · split at h
    · obtain ⟨-, rfl, rfl⟩ | ⟨bit, -, hwidth, hinside, rfl, rfl⟩ := activePass_ok h
      · exact ⟨⟨rfl, rfl⟩, by simp⟩
      · refine ⟨⟨rfl, rfl⟩, ?_⟩
        rintro _ ⟨⟩
        exact ⟨hwidth, hinside⟩
    · obtain ⟨-, rfl, rfl⟩ | ⟨-, rfl, -, rfl⟩ | ⟨-, rfl, -, image, walker, -, rfl⟩ :=
        referencePass_ok h
      all_goals exact ⟨⟨rfl, rfl⟩, by simp⟩

/-- A page that is handed out is a page of the file. -/
theorem nextPageInner_inside {pages next : OwnedPages} {page : Option PageNumber}
    (hok : pages.nextPageInner = .ok (page, next)) :
    (next.file = pages.file ∧ next.failed = pages.failed) ∧
      ∀ number, page = some number → number < 2 ^ 64 ∧ number < pages.file.pageCount := by
  induction pages using nextPageInner.induct with
  | case1 pages e hpass =>
    rw [nextPageInner, hpass] at hok
    cases hok
  | case2 pages page' next' hpass =>
    rw [nextPageInner, hpass] at hok
    cases hok
    obtain ⟨hkept, hinside⟩ := pass_inside hpass
    exact ⟨hkept, fun number hnumber => hinside number (by rw [hnumber])⟩
  | case3 pages next' hpass ih =>
    rw [nextPageInner, hpass] at hok
    obtain ⟨⟨hfile, hfailed⟩, -⟩ := pass_inside hpass
    rw [← hfile, ← hfailed]
    exact ih hok

/-- A call that returns a page, or the end of a traversal that has not failed, has run the loop. -/
theorem nextPage_ok {pages : OwnedPages} {page : Option PageNumber} (hfailed : pages.failed = false)
    (h : pages.nextPage.1 = .ok page) : pages.nextPageInner = .ok (page, pages.nextPage.2) := by
  unfold nextPage at h ⊢
  rw [if_neg (by simp [hfailed])] at h ⊢
  split at h
  · cases h
  · rename_i hinner
    cases h
    rw [hinner]

/-- Every page a traversal returns is inside its file. -/
theorem yields_inside {pages : OwnedPages} {listed : List PageNumber}
    (hfailed : pages.failed = false) (h : Cursor.Yields nextPage pages listed) :
    ∀ page ∈ listed, page < 2 ^ 64 ∧ page < pages.file.pageCount := by
  refine Cursor.Yields.forall_mem
    (I := fun state => state.file = pages.file ∧ state.failed = false)
    (fun state page hstate hnext => ?_) h ⟨rfl, hfailed⟩
  obtain ⟨⟨hfile, hfailed'⟩, hinside⟩ := nextPageInner_inside (nextPage_ok hstate.2 hnext)
  rw [hstate.1] at hfile hinside
  exact ⟨hinside page rfl, hfile, hfailed'.trans hstate.2⟩

/-- What a traversal yields is what it represents. -/
theorem Represents.eq_of_yields {pages : OwnedPages} {l listed : List PageNumber}
    (h : pages.Represents l) (hfailed : pages.failed = false)
    (hyields : Cursor.Yields nextPage pages listed) : listed = l := by
  refine Cursor.Yields.eq_of_represents
    (R := fun state l => state.failed = false ∧ state.Represents l)
    (fun state l page hstate hnext => ?_) hyields ⟨hfailed, h⟩
  have hinner := nextPage_ok hstate.1 hnext
  obtain ⟨hhead, hrest⟩ := nextPageInner_represents hstate.2 hinner
  exact ⟨hhead, (nextPageInner_inside hinner).1.2.trans hstate.1, hrest⟩

/-- Where all pages that are left are pages of the file, a call meets no error. -/
theorem Represents.exists_nextPageInner {pages : OwnedPages} {l : List PageNumber}
    (h : pages.Represents l) (hinside : ∀ page ∈ l, page < 2 ^ 64 ∧ page < pages.file.pageCount) :
    ∃ result, pages.nextPageInner = .ok result := by
  induction pages using nextPageInner.induct with
  | case1 pages e hpass =>
    obtain ⟨result, hresult⟩ := h.exists_pass hinside
    cases hpass.symm.trans hresult
  | case2 pages page next hpass =>
    rw [nextPageInner, hpass]
    exact ⟨_, rfl⟩
  | case3 pages next hpass ih =>
    rw [nextPageInner, hpass]
    refine ih (pass_takes h hpass) ?_
    rwa [(pass_inside hpass).1.1]

/-- A call returns the first page still to come. -/
theorem Represents.exists_nextPage {pages : OwnedPages} {l : List PageNumber}
    (h : pages.Represents l) (hfailed : pages.failed = false)
    (hinside : ∀ page ∈ l, page < 2 ^ 64 ∧ page < pages.file.pageCount) :
    ∃ next, pages.nextPage = (.ok l.head?, next) ∧ next.Represents l.tail ∧
      next.file = pages.file ∧ next.failed = false := by
  obtain ⟨⟨page, next⟩, hinner⟩ := h.exists_nextPageInner hinside
  obtain ⟨rfl, hrest⟩ := nextPageInner_represents h hinner
  obtain ⟨⟨hfile, hkept⟩, -⟩ := nextPageInner_inside hinner
  refine ⟨next, ?_, hrest, hfile, hkept.trans hfailed⟩
  rw [nextPage, if_neg (by simp [hfailed]), hinner]

/-- A traversal meets no error where the pages it represents are inside the file. -/
theorem Represents.yields {pages : OwnedPages} {l : List PageNumber} (h : pages.Represents l)
    (hfailed : pages.failed = false)
    (hinside : ∀ page ∈ l, page < 2 ^ 64 ∧ page < pages.file.pageCount) :
    Cursor.Yields nextPage pages l := by
  induction l generalizing pages with
  | nil =>
    obtain ⟨next, hnext, -⟩ := h.exists_nextPage hfailed hinside
    exact .done (by rw [hnext]; rfl)
  | cons page rest ih =>
    obtain ⟨next, hnext, hrest, hfile, hfailed'⟩ := h.exists_nextPage hfailed hinside
    refine .item (by rw [hnext]; rfl) ?_
    rw [hnext]
    refine ih hrest hfailed' fun other hother => ?_
    rw [hfile]
    exact hinside other (List.mem_cons_of_mem _ hother)

end OwnedPages

end Jet3
