import Jet3.Format.Page
import Mathlib.Data.Nat.Bitwise

/-!
# Data-page row directories

The structural decoding of the row directory every data page carries: a two-byte row count at
offset 8 and one two-byte word per row from offset 10. The low thirteen bits of a word are the
row's first byte, the bits above it are flags, and a row ends where the row before it starts.

`DataPageDirectory.validate_ok_iff` states what a validated directory guarantees of every row
(`EntryValid`), and `ValidatesWith` is the same statement on a page.
-/

namespace Jet3

open Outcome

/-- The four bytes owning a long-value page: `LVAL`. -/
def longValueOwner : List UInt8 := [0x4c, 0x56, 0x41, 0x4c]

/-- Where a data page has its free space. -/
def freeSpaceOffset : ℕ := 2
/-- Where a data page has the root of its table. -/
def ownerOffset : ℕ := 4
/-- Where a data page has its row count. -/
def rowCountOffset : ℕ := 8
/-- Where the row directory starts. -/
def directoryOffset : ℕ := 10
/-- The bytes of one directory entry. -/
def entryLen : ℕ := 2
/-- The bits of an entry that are the offset of the row. -/
def offsetMask : ℕ := 0x1fff
/-- The bit of an entry that no sourced page has. -/
def unknownFlag : ℕ := 0x2000
/-- The bit of a row that is stored elsewhere. -/
def overflowFlag : ℕ := 0x4000
/-- The bit of a row that is not listed. -/
def hiddenFlag : ℕ := 0x8000
/-- The directory entries a page has room for. -/
def maxRowCount : ℕ := (pageBytes - directoryOffset) / entryLen

/-- A half-open range of page offsets. -/
structure Range where
  start : ℕ
  stop : ℕ
  deriving DecidableEq, Repr

namespace Range

/-- The bytes of a range. -/
def len (r : Range) : ℕ := r.stop - r.start

/-- Whether a range has no bytes. -/
def isEmpty (r : Range) : Bool := !decide (r.start < r.stop)

theorem isEmpty_iff {r : Range} : r.isEmpty = true ↔ r.stop ≤ r.start := by
  simp [isEmpty]

end Range

/-- Why the directory of a page is refused. -/
inductive DataPageDirectoryError where
  | rowCountTooLarge (rowCount maximum : ℕ)
  | unknownFlag (row rawOffset : ℕ)
  | offsetOutOfPage (row rawOffset : ℕ)
  | invalidBounds (row start stop directoryEnd : ℕ)
  deriving DecidableEq, Repr

/-- A checked directory, and the row its iterator is at. -/
structure DataPageDirectory where
  rowCount : ℕ
  nextRow : ℕ
  deriving DecidableEq, Repr

/-- One row of a directory: its bytes and its two flags. -/
structure DataPageEntry where
  row : ℕ
  range : Range
  overflow : Bool
  hidden : Bool
  deriving DecidableEq, Repr

/-- The directory word of `row`. -/
def rawOffset (page : Page) (row : ℕ) : ℕ :=
  u16At page (directoryOffset + entryLen * row)

/-- Checks one directory word against the start of the row before it, and returns its own
start. -/
def validateEntry (row rawOffset stop directoryEnd : ℕ) : Except DataPageDirectoryError ℕ :=
  if rawOffset &&& Jet3.unknownFlag ≠ 0 then .error (.unknownFlag row rawOffset)
  else
    let start := rawOffset &&& offsetMask
    let hidden := rawOffset &&& hiddenFlag ≠ 0
    -- a deleted slot is zero-length, so only a hidden start may equal the page end
    if start > pageBytes ∨ (start = pageBytes ∧ ¬hidden) then
      .error (.offsetOutOfPage row rawOffset)
    else if start < directoryEnd ∨ start > stop ∨ (¬hidden ∧ start = stop) then
      .error (.invalidBounds row start stop directoryEnd)
    else .ok start

namespace DataPageDirectory

/-- The row count a page states. -/
def declaredRowCount (page : Page) : ℕ :=
  u16At page rowCountOffset

/-- The stored root of the table a page belongs to. -/
def owner (page : Page) : List UInt8 :=
  page.slice ownerOffset (ownerOffset + 4)

/-- Where the directory of this many rows ends, and rows may start. -/
def directoryEnd (rowCount : ℕ) : ℕ :=
  directoryOffset + entryLen * rowCount

/-- Checks every entry of the directory; each row ends where the one before it starts. -/
def validate (page : Page) : Except DataPageDirectoryError DataPageDirectory := do
  let rowCount := declaredRowCount page
  refuseIf (rowCount > maxRowCount) (.rowCountTooLarge rowCount maxRowCount)
  let _ ← (List.range rowCount).foldlM
    (fun stop row => validateEntry row (rawOffset page row) stop (directoryEnd rowCount)) pageBytes
  return { rowCount, nextRow := 0 }

/-- The directory entry of a row. -/
def entry (directory : DataPageDirectory) (page : Page) (row : ℕ) : Option DataPageEntry :=
  if row ≥ directory.rowCount then none
  else
    let raw := rawOffset page row
    some
      { row
        range :=
          { start := raw &&& offsetMask
            stop := if row = 0 then pageBytes else rawOffset page (row - 1) &&& offsetMask }
        overflow := raw &&& overflowFlag ≠ 0
        hidden := raw &&& hiddenFlag ≠ 0 }

/-- The entries `next_entry` returns before it returns nothing. -/
def entries (directory : DataPageDirectory) (page : Page) : List DataPageEntry :=
  (List.range' directory.nextRow (directory.rowCount - directory.nextRow)).filterMap
    (directory.entry page)

end DataPageDirectory

/-! ## What validation guarantees -/

/-- The first byte of `row`. -/
def rowStart (page : Page) (row : ℕ) : ℕ :=
  rawOffset page row &&& offsetMask

/-- The byte after the last of `row`: the start of the row before it, or the page end. -/
def rowStop (page : Page) (row : ℕ) : ℕ :=
  if row = 0 then pageBytes else rowStart page (row - 1)

/-- `row` carries the hidden flag. -/
def rowHidden (page : Page) (row : ℕ) : Bool :=
  rawOffset page row &&& hiddenFlag ≠ 0

/-- `row` carries the overflow flag. -/
def rowOverflow (page : Page) (row : ℕ) : Bool :=
  rawOffset page row &&& overflowFlag ≠ 0

/-- What a validated directory guarantees of one of its rows. -/
structure EntryValid (page : Page) (directoryEnd row : ℕ) : Prop where
  known : rawOffset page row &&& Jet3.unknownFlag = 0
  le_page : rowStart page row ≤ pageBytes
  directory_le : directoryEnd ≤ rowStart page row
  le_stop : rowStart page row ≤ rowStop page row
  lt_page : rowHidden page row = false → rowStart page row ≠ pageBytes
  lt_stop : rowHidden page row = false → rowStart page row ≠ rowStop page row

theorem rowStop_zero (page : Page) : rowStop page 0 = pageBytes := rfl

theorem rowStop_succ (page : Page) (row : ℕ) : rowStop page (row + 1) = rowStart page row := by
  simp [rowStop]

/-- A row ends where its offset or the page allows. -/
theorem rowStop_le (page : Page) (row : ℕ) : rowStop page row ≤ max pageBytes offsetMask := by
  cases row with
  | zero => exact le_max_left _ _
  | succ row =>
    rw [rowStop_succ, rowStart]
    exact Nat.and_le_right.trans (le_max_right _ _)

/-- A row is listed where its hidden bit is clear. -/
theorem rowHidden_eq_false {page : Page} {row : ℕ} :
    rowHidden page row = false ↔ rawOffset page row &&& hiddenFlag = 0 := by
  simp [rowHidden]

/-- The check of an entry accepts what `EntryValid` says, and gives the start of the row. -/
theorem validateEntry_ok_iff {page : Page} {row directoryEnd start : ℕ} :
    validateEntry row (rawOffset page row) (rowStop page row) directoryEnd = .ok start ↔
      EntryValid page directoryEnd row ∧ start = rowStart page row := by
  have hstart : rawOffset page row &&& offsetMask = rowStart page row := rfl
  simp only [validateEntry, ite_error_ok_iff, Except.ok.injEq, not_or, not_and, not_not, not_lt,
    ne_eq, hstart]
  constructor
  · rintro ⟨hknown, ⟨hpage, hflag⟩, ⟨hdir, hstop, hempty⟩, rfl⟩
    refine ⟨⟨hknown, hpage, hdir, hstop, ?_, ?_⟩, rfl⟩
    · exact fun hhidden heq => hflag heq (rowHidden_eq_false.mp hhidden)
    · exact fun hhidden heq => hempty (rowHidden_eq_false.mp hhidden) heq
  · rintro ⟨⟨hknown, hpage, hdir, hstop, hflag, hempty⟩, rfl⟩
    refine ⟨hknown, ⟨hpage, ?_⟩, ⟨hdir, hstop, ?_⟩, rfl⟩
    · exact fun heq hhidden => hflag (rowHidden_eq_false.mpr hhidden) heq
    · exact fun hhidden heq => hempty (rowHidden_eq_false.mpr hhidden) heq

/-- The validation loop over the first `count` rows returns the start of the last one exactly when
every row is valid. -/
theorem validateLoop_ok_iff {page : Page} {directoryEnd : ℕ} (count stop : ℕ) :
    (List.range count).foldlM
        (fun stop row => validateEntry row (rawOffset page row) stop directoryEnd) pageBytes
        = .ok stop ↔
      (∀ row < count, EntryValid page directoryEnd row) ∧ stop = rowStop page count := by
  induction count generalizing stop with
  | zero => simp [rowStop_zero, eq_comm (a := stop)]
  | succ count ih =>
    rw [List.range_succ, List.foldlM_append]
    simp only [bind_ok_iff, List.foldlM_cons, List.foldlM_nil, pure_ok_iff, ih]
    constructor
    · rintro ⟨previous, ⟨hrows, rfl⟩, start, hentry, rfl⟩
      obtain ⟨hvalid, rfl⟩ := validateEntry_ok_iff.mp hentry
      refine ⟨fun row hrow => ?_, (rowStop_succ page count).symm⟩
      rcases Nat.lt_succ_iff_lt_or_eq.mp hrow with h | rfl
      · exact hrows row h
      · exact hvalid
    · rintro ⟨hrows, rfl⟩
      exact ⟨_, ⟨fun row hrow => hrows row (by omega), rfl⟩, _,
        validateEntry_ok_iff.mpr ⟨hrows count (by omega), rfl⟩, (rowStop_succ page count).symm⟩

namespace DataPageDirectory

/-- A directory validates exactly when its row count fits the page and all its rows are valid. -/
theorem validate_ok_iff {page : Page} {directory : DataPageDirectory} :
    validate page = .ok directory ↔
      declaredRowCount page ≤ maxRowCount ∧
        (∀ row < declaredRowCount page,
          EntryValid page (directoryEnd (declaredRowCount page)) row) ∧
        directory = { rowCount := declaredRowCount page, nextRow := 0 } := by
  simp only [validate, bind_ok_iff, exists_unit, refuseIf_ok_iff, validateLoop_ok_iff, pure_ok_iff,
    not_lt]
  constructor
  · rintro ⟨hcount, stop, ⟨hrows, -⟩, rfl⟩
    exact ⟨hcount, hrows, rfl⟩
  · rintro ⟨hcount, hrows, rfl⟩
    exact ⟨hcount, _, ⟨hrows, rfl⟩, rfl⟩

/-- The entry of a row of the directory. -/
theorem entry_eq_some {directory : DataPageDirectory} {page : Page} {row : ℕ}
    (h : row < directory.rowCount) :
    directory.entry page row = some
      { row, range := { start := rowStart page row, stop := rowStop page row }
        overflow := rowOverflow page row, hidden := rowHidden page row } := by
  simp only [entry, rowStart, rowStop, rowOverflow, rowHidden, ge_iff_le, if_neg (not_le.mpr h)]

/-- There are no other rows. -/
theorem entry_eq_none {directory : DataPageDirectory} {page : Page} {row : ℕ}
    (h : directory.rowCount ≤ row) : directory.entry page row = none := by
  simp [entry, h]

/-- A fresh directory iterates over one entry per row. -/
theorem mem_entries {count : ℕ} {page : Page} {e : DataPageEntry} :
    e ∈ entries { rowCount := count, nextRow := 0 } page ↔ ∃ row < count, e =
      { row, range := { start := rowStart page row, stop := rowStop page row }
        overflow := rowOverflow page row, hidden := rowHidden page row } := by
  simp only [entries, List.mem_filterMap, List.mem_range'_1, Nat.sub_zero, Nat.zero_add]
  constructor
  · rintro ⟨row, ⟨-, hrow⟩, hentry⟩
    rw [entry_eq_some hrow, Option.some_inj] at hentry
    exact ⟨row, hrow, hentry.symm⟩
  · rintro ⟨row, hrow, rfl⟩
    exact ⟨row, ⟨Nat.zero_le row, hrow⟩, entry_eq_some hrow⟩

end DataPageDirectory

end Jet3
