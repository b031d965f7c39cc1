import Jet3.Format.DataPageDirectory

/-!
# Validated row directories

A `RowDirectory` is a data-page directory whose page belongs to an expected table, whose slots all
have an eight-bit number and whose visible overflow rows are exactly one row locator long.

* `RowDirectory.validate_ok_iff` states exactly which pages are accepted (`RowsValid`);
* `RowDirectory.entry_ok_iff` states what one slot of an accepted page looks like.
-/

namespace Jet3

open Outcome

/-- A row that is stored elsewhere is a locator of four bytes. -/
def overflowPointerLen : ℕ := 4

/-- A physical row slot on one data page. -/
structure RowLocator where
  page : PageNumber
  slot : UInt8
  deriving DecidableEq, Repr

/-- A malformed or unsupported row-directory condition. -/
inductive RowDirectoryError where
  | unexpectedOwner (expected actual : PageNumber)
  | rowCountTooLarge (rowCount maximum : ℕ)
  | rowSlotNotRepresentable (rowCount : ℕ)
  | unknownFlag (row : UInt8) (rawOffset : ℕ)
  | offsetOutOfPage (row : UInt8) (rawOffset : ℕ)
  | invalidBounds (row : UInt8) (start stop directoryEnd : ℕ)
  | invalidOverflowPointerLength (row : UInt8) (length : ℕ)
  | missingRow (row : UInt8) (rowCount : ℕ)
  deriving DecidableEq, Repr

/-- The checked directory of a page of known number. -/
structure RowDirectory where
  page : PageNumber
  inner : DataPageDirectory
  deriving DecidableEq, Repr

/-- A row of a directory, under its locator. -/
structure RowEntry where
  locator : RowLocator
  range : Range
  overflow : Bool
  hidden : Bool
  deriving DecidableEq, Repr

/-- The errors of the shared checks, as this reader reports them. -/
def mapDirectoryError : DataPageDirectoryError → RowDirectoryError
  | .rowCountTooLarge rowCount maximum => .rowCountTooLarge rowCount maximum
  | .unknownFlag row rawOffset => .unknownFlag (UInt8.ofNat row) rawOffset
  | .offsetOutOfPage row rawOffset => .offsetOutOfPage (UInt8.ofNat row) rawOffset
  | .invalidBounds row start stop directoryEnd =>
    .invalidBounds (UInt8.ofNat row) start stop directoryEnd

namespace RowDirectory

/-- The rows of the page. -/
def rowCount (directory : RowDirectory) : ℕ :=
  directory.inner.rowCount

/-- The owner word of a data page: the definition page of its table. -/
def ownerWord (page : Page) : PageNumber :=
  leValue (DataPageDirectory.owner page)

/-- The page belongs to the table. -/
def validateOwner (expectedOwner : PageNumber) (page : Page) : Except RowDirectoryError Unit :=
  refuseIf (ownerWord page ≠ expectedOwner) (.unexpectedOwner expectedOwner (ownerWord page))

/-- Checks the owner and the directory of a page. -/
def validate (pageNumber expectedOwner : PageNumber) (page : Page) :
    Except RowDirectoryError RowDirectory := do
  validateOwner expectedOwner page
  let rowCount := DataPageDirectory.declaredRowCount page
  refuseIf (rowCount > maxRowCount) (.rowCountTooLarge rowCount maxRowCount)
  refuseIf (rowCount > 255 + 1) (.rowSlotNotRepresentable rowCount)
  let inner ← (DataPageDirectory.validate page).mapError mapDirectoryError
  forM (inner.entries page) fun entry =>
    if entry.overflow ∧ ¬entry.hidden ∧ entry.range.len ≠ overflowPointerLen then
      if entry.row > 255 then throw (.rowSlotNotRepresentable rowCount)
      else throw (.invalidOverflowPointerLength (UInt8.ofNat entry.row) entry.range.len)
    else pure ⟨⟩
  return { page := pageNumber, inner }

/-- The same for a page of long values, which belongs to no table. -/
def validateLongValue (pageNumber : PageNumber) (page : Page) :
    Except RowDirectoryError RowDirectory :=
  validate pageNumber (leValue longValueOwner) page

/-- The entry of a row. -/
def entry (directory : RowDirectory) (page : Page) (row : UInt8) :
    Except RowDirectoryError RowEntry :=
  match directory.inner.entry page row.toNat with
  | none => .error (.missingRow row directory.rowCount)
  | some common =>
    .ok
      { locator := { page := directory.page, slot := row }
        range := common.range, overflow := common.overflow, hidden := common.hidden }

end RowDirectory

/-! ## Accepted pages -/

/-- The length of the row in slot `row`. -/
def rowLen (page : Page) (row : ℕ) : ℕ :=
  rowStop page row - rowStart page row

/-- What a validated row directory guarantees of its page. -/
structure RowsValid (owner : PageNumber) (page : Page) : Prop where
  owner_eq : RowDirectory.ownerWord page = owner
  count_le : DataPageDirectory.declaredRowCount page ≤ 256
  entry : ∀ row < DataPageDirectory.declaredRowCount page,
    EntryValid page (DataPageDirectory.directoryEnd (DataPageDirectory.declaredRowCount page)) row
  pointer : ∀ row < DataPageDirectory.declaredRowCount page,
    rowOverflow page row → ¬rowHidden page row → rowLen page row = overflowPointerLen

/-- The directory of a page whose validation succeeds. -/
def pageDirectory (pageNumber : PageNumber) (page : Page) : RowDirectory :=
  { page := pageNumber,
    inner := { rowCount := DataPageDirectory.declaredRowCount page, nextRow := 0 } }

/-- The entry of an existing slot. -/
def pageEntry (pageNumber : PageNumber) (page : Page) (row : UInt8) : RowEntry :=
  { locator := { page := pageNumber, slot := row }
    range := { start := rowStart page row.toNat, stop := rowStop page row.toNat }
    overflow := rowOverflow page row.toNat, hidden := rowHidden page row.toNat }

namespace RowDirectory

/-- A page is accepted exactly when it is valid for the expected owner. -/
theorem validate_ok_iff {pageNumber owner : PageNumber} {page : Page} {directory : RowDirectory} :
    validate pageNumber owner page = .ok directory ↔
      RowsValid owner page ∧ directory = pageDirectory pageNumber page := by
  simp only [validate, validateOwner, bind_ok_iff, exists_unit, refuseIf_ok_iff, mapError_ok_iff,
    DataPageDirectory.validate_ok_iff, forM_ok_iff, pure_ok_iff, not_not, not_lt]
  constructor
  · rintro ⟨howner, -, hcount, inner, ⟨-, hrows, rfl⟩, hpointer, rfl⟩
    refine ⟨⟨howner, hcount, hrows, fun row hrow hoverflow hhidden => ?_⟩, rfl⟩
    have hentry := hpointer _ (DataPageDirectory.mem_entries.mpr ⟨row, hrow, rfl⟩)
    by_contra hlen
    split at hentry
    · split at hentry <;> simp at hentry
    · rename_i hnot
      exact hnot ⟨hoverflow, hhidden, hlen⟩
  · rintro ⟨⟨howner, hcount, hrows, hpointer⟩, rfl⟩
    refine ⟨howner, ?_, hcount, _, ⟨?_, hrows, rfl⟩, ⟨fun entry hmem => ?_, rfl⟩⟩
    · exact hcount.trans (by decide)
    · exact hcount.trans (by decide)
    · obtain ⟨row, hrow, rfl⟩ := DataPageDirectory.mem_entries.mp hmem
      rw [if_neg]
      · rfl
      · rintro ⟨hoverflow, hhidden, hlen⟩
        exact hlen (hpointer row hrow hoverflow hhidden)

/-- The entry of a slot exists exactly when the slot is below the declared count. -/
theorem entry_ok_iff {pageNumber : PageNumber} {page : Page} {row : UInt8} {e : RowEntry} :
    (pageDirectory pageNumber page).entry page row = .ok e ↔
      row.toNat < DataPageDirectory.declaredRowCount page ∧ e = pageEntry pageNumber page row := by
  by_cases h : row.toNat < DataPageDirectory.declaredRowCount page
  · simp [entry, pageDirectory, DataPageDirectory.entry_eq_some, h, pageEntry, eq_comm]
  · have hnone : (pageDirectory pageNumber page).inner.entry page row.toNat = none :=
      DataPageDirectory.entry_eq_none (not_lt.mp h)
    simp [entry, hnone, h]

end RowDirectory

end Jet3
