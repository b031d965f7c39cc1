import Jet3.Row.InsertPage
import Jet3.Row.PageRefinement
import Jet3.Row.Writer

/-!
# Room on a page

Three parts of the program decide whether a page has room for one more row: a test of the raw page
bytes (`hasCapacity`), the editor of an existing page (`DataPageEditor.append`), and the builder of
a new one (`planEofInsert`). They agree.

* `append_stores_iff` is the agreement of the first two;
* `planEofInsert_available` is that of the first and the last.
-/

namespace Jet3

open Outcome

/-- Candidate availability policy: an appended minimum row and its directory slot fit. -/
def hasCapacity (page : Page) (minimum : ℕ) : Bool :=
  u16At page rowCountOffset < maxBuiltRows ∧ u16At page freeSpaceOffset ≥ minimum + entryLen

/-! ## Minimum rows -/

/-- Why the shortest row of a table is not known. -/
inductive MinimumRowError where
  | unsupported (what : String)
  | encoding (source : RowWriteError)
  deriving DecidableEq, Repr

/-- `minimum_row`: the all-null row, the smallest row a layout can store. -/
def minimumRow (layout : List RowColumnLayout) : Except MinimumRowError (List UInt8) := do
  refuseIf (layout.length > rowMaxColumnCount) (.unsupported "row column count")
  (encodeRow layout (List.replicate layout.length .null) pageBytes).mapError .encoding

theorem length_overwrite_le (row : List UInt8) (position : ℕ) (bytes : List UInt8) :
    row.length ≤ (overwrite row position bytes).length := by
  simp only [overwrite, List.length_append, List.length_take, List.length_drop]
  omega

/-- A written row has at least its column count. -/
theorem writeRow_pos (columns : List RowColumnLayout) (values : List RowValue) (shape : RowShape) :
    0 < (writeRow columns values shape).length := by
  have hfixed : ∀ (fields : List (RowColumnLayout × RowValue)) (row : List UInt8),
      row.length ≤ (fields.foldl writeFixedField row).length := by
    intro fields
    induction fields with
    | nil => exact fun row => le_rfl
    | cons field fields ih =>
      intro row
      refine le_trans ?_ (ih _)
      unfold writeFixedField
      split
      · split
        · exact length_overwrite_le _ _ _
        · exact le_rfl
      · exact le_rfl
  have hcount := hfixed (columns.zip values)
    (UInt8.ofNat shape.columnCount :: List.replicate shape.fixedSize 0)
  rw [List.length_cons] at hcount
  simp only [writeRow, writeFixed, List.length_append]
  omega

/-- The shortest row has a byte. -/
theorem minimumRow_pos {layout : List RowColumnLayout} {minimum : List UInt8}
    (h : minimumRow layout = .ok minimum) : 0 < minimum.length := by
  simp only [minimumRow, encodeRow, bind_ok_iff, exists_unit, mapError_ok_iff, pure_ok_iff] at h
  obtain ⟨-, shape, -, -, rfl⟩ := h
  exact writeRow_pos _ _ _

/-! ## Existing pages -/

namespace DataPageEditor

variable {owner : PageNumber}

/-- On a packed page with a live row, a row is stored exactly where it and its slot fit. -/
theorem append_stores_iff {editor : DataPageEditor owner} {row : List UInt8}
    {physical : Option RowSlot} {live : ℕ} {packed : Packed}
    (hlive : editor.liveRows physical.isSome "page contains nonordinary row slots" = .ok live)
    (hpos : live ≠ 0) (hpacked : editor.packed "data page free-byte count" = .ok packed)
    (hrow : 0 < row.length) (hlength : (physical.getD .ordinary).validLength row.length = true) :
    (∃ image slot, editor.append row physical = .ok (some (image, slot))) ↔
      hasCapacity editor.source row.length = true := by
  obtain ⟨hcount, hgap, rfl⟩ := packed_ok_iff.mp hpacked
  have hrows : editor.directory.rowCount = u16At editor.source rowCountOffset := editor.rowCount_eq
  rw [hasCapacity, decide_eq_true_iff]
  constructor
  · rintro ⟨image, slot, happend⟩
    obtain ⟨_, other, -, hother, -, hslots, hroom, -⟩ := append_ok happend
    cases hpacked.symm.trans hother
    exact ⟨hrows ▸ hslots, hroom⟩
  · rintro ⟨hslots, hroom⟩
    -- the gap that was tested lies below the lowest row, so the row starts inside the page
    obtain ⟨layout, -⟩ := liveRows_ok hlive
    rw [editor.rowCount_eq] at layout
    have hlowest := layout.start_le (Nat.sub_lt hcount one_pos)
    have hend : DataPageDirectory.directoryEnd (DataPageDirectory.declaredRowCount editor.source) =
        10 + 2 * DataPageDirectory.declaredRowCount editor.source := rfl
    have hpage : pageBytes = 2048 := rfl
    have hnotDeleted : physical.getD .ordinary ≠ .deleted := by
      intro hdeleted
      rw [hdeleted, RowSlot.validLength, beq_iff_eq] at hlength
      omega
    have hslots' : DataPageDirectory.declaredRowCount editor.source < 255 := hslots
    rw [entryLen] at hroom
    rw [hgap, hend] at hroom
    apply Exists.intro
    apply Exists.intro
    rw [append, editor.rowCount_eq]
    dsimp only
    rw [if_neg (by omega), hlive, bind_ok_iff]
    refine ⟨live, rfl, ?_⟩
    rw [if_neg hpos, hpacked, bind_ok_iff]
    refine ⟨_, rfl, ?_⟩
    dsimp only
    simp only [bind_ok_iff, exists_unit, RowSlot.checkLength_ok_iff, refuseIf_ok_iff]
    refine ⟨hlength, hnotDeleted, ?_⟩
    rw [hgap, hend, maxBuiltRows, entryLen, if_neg (by omega)]
    simp only [bind_ok_iff, okOr_ok_iff, checkedSub_eq_some, toU16_eq_some, writeFree,
      WriteError.ofError_ok_iff, writeAt_ok_iff, writeSlot_ok_iff, pure_ok_iff, length_leBytes]
    refine ⟨_, ⟨by omega, rfl⟩, _, ⟨by omega, rfl⟩, _, ⟨by omega, rfl⟩, _, ⟨by omega, rfl⟩, _,
      ⟨?_, rfl⟩, _, ⟨by decide, rfl⟩, _, ⟨by decide, rfl⟩, rfl⟩
    rw [directoryOffset, entryLen]
    omega

end DataPageEditor

/-! ## New pages -/

/-- `page_error`. -/
def pageError {α : Type} (x : Except PageImageError α) : Except WriteError α :=
  x.mapError fun error =>
    match error with
    | .encoding source => .resource source
    | _ => .unsupported "row or owner does not fit new data page"

@[simp]
theorem pageError_ok_iff {α : Type} {x : Except PageImageError α} {a : α} :
    pageError x = .ok a ↔ x = .ok a :=
  mapError_ok_iff

/-- The page an insert allocates, its image, and its bit in the map of available pages. -/
structure EofInsert where
  page : PageNumber
  image : Page
  available : Bool

/-- The same policy as initial creation: a minimum row physically fits. -/
def builderAvailable (builder : DataPageBuilder) (minimum : List UInt8) : Except WriteError Bool :=
  match builder.appendRow minimum with
  | .ok _ => .ok true
  | .error (.pageFull _ _) | .error (.rowSlotsExhausted _) => .ok false
  | .error error => pageError (.error error)

/-- A released page gets a new directory and keeps its slack. -/
def retainSlack (before image : Page) (encoded : List UInt8) : Except WriteError Page :=
  WriteError.ofError do
    let retained ← writeAt before 0 (image.slice 0 12)
    writeAt retained (pageBytes - encoded.length) encoded

/-- `plan_eof_insert`: a released page, or the next one to append, takes the row. -/
def planEofInsert (reusable : Option (PageNumber × Page)) (root nextAppend : PageNumber)
    (encoded minimum : List UInt8) : Except WriteError EofInsert := do
  let page := (reusable.map Prod.fst).getD nextAppend
  refuseIf (page > 0x00ffffff) (.unsupported "EOF page reference width")
  let builder ← pageError (DataPageBuilder.new root)
  let (builder, _) ← pageError (builder.appendRow encoded)
  let free ← okOr (toU16 builder.freeBytes) (.mismatch "new data page free bytes")
  let available ← builderAvailable builder minimum
  let image ← WriteError.ofError (writeAt builder.image 1 (1 :: leBytes 2 free))
  match reusable with
  | none => return { page, image, available }
  | some (_, before) =>
    let image ← retainSlack before image encoded
    return { page, image, available }

/-- A builder takes a minimum row exactly when a slot is left and the row fits. -/
theorem builderAvailable_ok {builder : DataPageBuilder} {minimum : List UInt8} {available : Bool}
    (hbuilder : builder.Invariant) (hminimum : 0 < minimum.length)
    (h : builderAvailable builder minimum = .ok available) :
    available = decide (builder.rowCount < maxBuiltRows ∧
      minimum.length + entryLen ≤ builder.freeBytes) := by
  have hne : minimum ≠ [] := List.ne_nil_of_length_pos hminimum
  rw [builderAvailable] at h
  by_cases hfits : builder.rowCount < maxBuiltRows ∧ minimum.length + entryLen ≤ builder.freeBytes
  · have happend := (DataPageBuilder.appendRow_ok_iff hbuilder).mpr
      ⟨hne, hfits.1, hfits.2, rfl, rfl⟩
    rw [happend] at h
    rw [decide_eq_true hfits]
    exact (Except.ok.inj h).symm
  · rw [decide_eq_false hfits]
    rcases DataPageBuilder.appendRow_error hne hfits with hslots | ⟨needed, free, hfull⟩
    · rw [hslots] at h
      exact (Except.ok.inj h).symm
    · rw [hfull] at h
      exact (Except.ok.inj h).symm

/-- A tag and free-byte count written together are read back, and the row count is kept. -/
theorem u16At_tagged (base : Page) {free : ℕ} (hfree : free < 65536) :
    u16At (base.write 1 (1 :: leBytes 2 free)) freeSpaceOffset = free ∧
      u16At (base.write 1 (1 :: leBytes 2 free)) rowCountOffset = u16At base rowCountOffset := by
  have hlen : (1 :: leBytes 2 free).length = 3 := rfl
  constructor
  · have hslice := @Block.slice_write_drop _ base 1 2 (1 :: leBytes 2 free) (by decide)
       (by rw [hlen]; decide)
    rw [hlen] at hslice
    rw [u16At, Block.le, freeSpaceOffset, hslice]
    exact leValue_leBytes_of_lt hfree
  · exact Block.le_write_of_disjoint _ (by rw [hlen]; decide)

/-- The availability bit of a new page is the one its image gives. -/
theorem planEofInsert_available {reusable : Option (PageNumber × Page)}
    {root nextAppend : PageNumber}
    {encoded minimum : List UInt8} {plan : EofInsert} (hminimum : 0 < minimum.length)
    (h : planEofInsert reusable root nextAppend encoded minimum = .ok plan) :
    plan.available = hasCapacity plan.image minimum.length := by
  simp only [planEofInsert, bind_ok_iff, exists_unit, refuseIf_ok_iff, pageError_ok_iff,
    Prod.exists, okOr_ok_iff, toU16_eq_some, WriteError.ofError_ok_iff, writeAt_ok_iff,
    DataPageBuilder.new_ok_iff] at h
  obtain ⟨-, _, ⟨-, rfl⟩, builder, slot, happend, free, ⟨hfree, rfl⟩, available, havailable, image,
    ⟨-, himage⟩, h⟩ := h
  have hnew : DataPageBuilder.Invariant
      { image := (PageKind.newImage .data).write ownerOffset (leBytes 4 root), rowCount := 0
        freeEnd := pageBytes } := ⟨le_rfl, (by decide : 10 + 2 * 0 ≤ pageBytes)⟩
  obtain ⟨-, -, hfits, -, rfl⟩ := (DataPageBuilder.appendRow_ok_iff hnew).mp happend
  have hpage : pageBytes = 2048 := rfl
  simp only [DataPageBuilder.freeBytes, directoryOffset, entryLen] at hfits hfree himage
  have hbuilt := builderAvailable_ok ⟨Nat.sub_le _ _, by
    simp only [directoryOffset, entryLen]
    omega⟩ hminimum havailable
  -- the row count and the free bytes of the built image
  have hone : ∀ base : Page,
      u16At (base.write rowCountOffset (leBytes 2 (0 + 1))) rowCountOffset = 1 :=
    fun base => Block.le_write_self base (length_leBytes 2 1) (by decide)
  obtain ⟨hstored, hcount⟩ := u16At_tagged _ hfree
  rw [← himage] at hstored hcount
  rw [hone] at hcount
  have hcapacity : hasCapacity image minimum.length = available := by
    rw [hbuilt, hasCapacity, hcount, hstored]
    simp only [DataPageBuilder.freeBytes, directoryOffset, entryLen, maxBuiltRows, ge_iff_le]
    rfl
  rcases reusable with _ | ⟨number, before⟩
  · cases h
    exact hcapacity.symm
  · simp only [bind_ok_iff, retainSlack, WriteError.ofError_ok_iff, writeAt_ok_iff, pure_ok_iff]
      at h
    obtain ⟨_, ⟨_, ⟨-, rfl⟩, -, rfl⟩, rfl⟩ := h
    -- the reused page has the header of the built one
    have hheader : ∀ offset, offset + 2 ≤ 12 →
        u16At ((before.write 0 (image.slice 0 12)).write (pageBytes - encoded.length) encoded)
          offset = u16At image offset := by
      intro offset hoffset
      rw [u16At, Block.le_write_of_disjoint _ (by omega)]
      refine Block.le_congr fun i hi => ?_
      rw [Block.get_write_of_mem (Nat.zero_le _) (by simp; omega) (by omega),
        Block.getD_slice _ (by omega), Nat.zero_add, Nat.sub_zero]
    rw [← hcapacity, hasCapacity, hasCapacity, hheader rowCountOffset (by decide),
      hheader freeSpaceOffset (by decide)]

/-! ## Agreement -/

/-- For the minimum row of a layout, the test of the page bytes, the editor and the builder agree on
which pages have room, and a page that takes a longer row has room. -/
theorem pageRoom_agrees {layout : List RowColumnLayout} {minimum : List UInt8}
    (hminimum : minimumRow layout = .ok minimum) :
    (∀ {owner : PageNumber} (editor : DataPageEditor owner) (physical : Option RowSlot)
        (row : List UInt8) (live : ℕ) (packed : Packed),
      editor.liveRows physical.isSome "page contains nonordinary row slots" = .ok live → live ≠ 0 →
      editor.packed "data page free-byte count" = .ok packed → row.length = minimum.length →
      (physical.getD .ordinary).validLength row.length = true →
      (hasCapacity editor.source minimum.length = true ↔
        ∃ image slot, editor.append row physical = .ok (some (image, slot)))) ∧
    (∀ {owner : PageNumber} (editor : DataPageEditor owner) (physical : Option RowSlot)
        (row : List UInt8) (image : Page) (slot : UInt8),
      minimum.length ≤ row.length → editor.append row physical = .ok (some (image, slot)) →
      hasCapacity editor.source minimum.length = true) ∧
    ∀ (reusable : Option (PageNumber × Page)) (root nextAppend : PageNumber) (encoded : List UInt8)
        (plan : EofInsert), planEofInsert reusable root nextAppend encoded minimum = .ok plan →
      plan.available = hasCapacity plan.image minimum.length := by
  have hpos := minimumRow_pos hminimum
  refine ⟨?_, ?_, fun reusable root nextAppend encoded plan hplan =>
    planEofInsert_available hpos hplan⟩
  · intro owner editor physical row live packed hlive hne hpacked hlen hlength
    rw [← hlen, DataPageEditor.append_stores_iff hlive hne hpacked (by omega) hlength]
  · intro owner editor physical row image slot hlonger happend
    obtain ⟨live, packed, -, hpacked, -, hslots, hroom, -⟩ := DataPageEditor.append_ok happend
    obtain ⟨-, -, rfl⟩ := DataPageEditor.packed_ok_iff.mp hpacked
    rw [hasCapacity, decide_eq_true_iff]
    rw [editor.rowCount_eq] at hslots
    dsimp only at hroom
    exact ⟨hslots, by omega⟩

/-- One Long column. -/
def longLayout : List RowColumnLayout :=
  [{ physicalType := .long, storage := .fixed 0, size := 4, storageOrdinal := none }]

/-- A page with two rows takes one more. -/
theorem pageRoom_agrees_long :
    hasCapacity twoRowPage 6 = true ∧
      ∃ image slot, twoRowEditor.append [1, 0, 0, 0, 0, 0] none = .ok (some (image, slot)) := by
  have hminimum : minimumRow longLayout = .ok [1, 0, 0, 0, 0, 0] := by decide +kernel
  obtain ⟨live, hlive, hpos⟩ := exists_ok_and
    (x := twoRowEditor.liveRows false "page contains nonordinary row slots")
    (p := fun live => live ≠ 0) (by decide +kernel)
  obtain ⟨packed, hpacked⟩ := exists_ok (x := twoRowEditor.packed "data page free-byte count")
    (by rfl)
  have hroom : hasCapacity twoRowPage 6 = true := by decide +kernel
  exact ⟨hroom, ((pageRoom_agrees hminimum).1 twoRowEditor none [1, 0, 0, 0, 0, 0] live packed hlive
    (of_decide_eq_true hpos) hpacked rfl rfl).mp hroom⟩

/-! ## Ordinary edits -/

/-- A packed page of table 20 holding a one-byte row and a link to an overflow row. -/
def linkPage : Page :=
  (((((Block.fill pageBytes 1).write freeSpaceOffset (leBytes 2 2029)).write ownerOffset
    (leBytes 4 20)).write rowCountOffset (leBytes 2 2)).write directoryOffset
    (leBytes 2 2047)).write (directoryOffset + entryLen) (leBytes 2 (2043 + 0x4000))

/-- The editor of this page. -/
def linkEditor : DataPageEditor 20 where
  page := 21
  source := linkPage
  directory := pageDirectory 21 linkPage
  valid := rfl

/-- A packed page with live rows and room on which an ordinary append is refused: ordinary edits do
not handle pages that hold a link. A physical append stores the row. -/
theorem linkPage_refuses_ordinary :
    (∃ packed, linkEditor.packed "data page free-byte count" = .ok packed) ∧
      linkEditor.liveRows true "page contains nonordinary row slots" = .ok 2 ∧
      minimumRow longLayout = .ok [1, 0, 0, 0, 0, 0] ∧ hasCapacity linkPage 6 = true ∧
      linkEditor.append [1, 0, 0, 0, 0, 0] none =
        .error (.unsupported "page contains nonordinary row slots") ∧
      ∃ result, linkEditor.append [1, 0, 0, 0, 0, 0] (some .ordinary) = .ok (some result) := by
  refine ⟨exists_ok (by rfl), by decide +kernel, by decide +kernel, by decide +kernel, ?_,
    exists_ok_some (by decide +kernel)⟩
  rfl

end Jet3
