import Jet3.Format.DataPageDirectory
import Jet3.Format.PageFile

/-!
# Allocation-map rows

An allocation map is a row of a data page. `locateUsageMap` walks the row directory of the page and
returns the bytes of the located row; it accepts deleted slots beside it but no other flagged row.
-/

namespace Jet3

open Outcome

/-- The largest row offset without flags. -/
def maxUnflaggedRowOffset : ℕ := 2047

/-- Deleted map slots carry both flags and have empty bounds. -/
def deletedMapFlags : ℕ := 0xc000

/-- The location of an allocation-map row. -/
structure MapRowLocator where
  page : PageNumber
  row : UInt8
  deriving DecidableEq, Repr

/-- Why a page has no map at a row. -/
inductive UsageMapError where
  | pageMismatch (expected actual : PageNumber)
  | expectedDataPage (page : PageNumber) (actual : PageKind)
  | rowCountTooLarge (rowCount maximum : ℕ)
  | rowOutOfBounds (row : UInt8) (rowCount : ℕ)
  | flaggedOrOutOfPageRow (row rawOffset : ℕ)
  | invalidRowBounds (row start stop directoryEnd : ℕ)
  deriving DecidableEq, Repr

/-- One complete allocation-map record. -/
structure UsageMapRecord where
  location : MapRowLocator
  raw : List UInt8
  range : Range
  deriving DecidableEq, Repr

/-- The bits of a directory word outside its offset: `raw_offset & !OFFSET_MASK`. -/
def offsetFlags (rawOffset : ℕ) : ℕ :=
  rawOffset - (rawOffset &&& offsetMask)

/-- One step of the walk: the start of `row`, which ends where the row before it starts. -/
def checkMapRow (raw : Page) (located : UInt8) (directoryEnd priorStart row : ℕ) :
    Except UsageMapError ℕ := do
  let word := rawOffset raw row
  let deleted : Bool := offsetFlags word = deletedMapFlags
  let start := word &&& offsetMask
  refuseIf (word > maxUnflaggedRowOffset ∧
      (deleted = false ∨ row = located.toNat ∨ start > pageBytes))
    (.flaggedOrOutOfPageRow row word)
  let stop := priorStart
  refuseIf (start < directoryEnd ∨ start > stop ∨ (decide (start = stop) ≠ deleted))
    (.invalidRowBounds row start stop directoryEnd)
  return start

/-- One iteration of the walk. Its state is the start of the row before and the located row's bounds
once they are known. -/
def mapRowStep (raw : Page) (located : UInt8) (directoryEnd : ℕ) (state : ℕ × Option Range)
    (row : ℕ) : Except UsageMapError (ℕ × Option Range) := do
  let start ← checkMapRow raw located directoryEnd state.1 row
  if row = located.toNat then return (start, some { start := start, stop := state.1 })
  else return (start, state.2)

/-- `locate_usage_map`. -/
def locateUsageMap (page : ClassifiedPage) (locator : MapRowLocator) :
    Except UsageMapError UsageMapRecord := do
  refuseIf (page.number ≠ locator.page) (.pageMismatch locator.page page.number)
  refuseIf (page.kind ≠ .data) (.expectedDataPage page.number page.kind)
  let raw := page.raw
  let rowCount := u16At raw rowCountOffset
  refuseIf (rowCount > maxRowCount) (.rowCountTooLarge rowCount maxRowCount)
  refuseIf (locator.row.toNat ≥ rowCount) (.rowOutOfBounds locator.row rowCount)
  let directoryEnd := directoryOffset + entryLen * rowCount
  let walked ← (List.range rowCount).foldlM (mapRowStep raw locator.row directoryEnd)
    (pageBytes, none)
  let range ← okOr walked.2 (.rowOutOfBounds locator.row rowCount)
  return { location := locator, raw := raw.slice range.start range.stop, range }

/-! ## What a located row guarantees -/

/-- What the walk guarantees of one row: a live row is unflagged and not empty, and a deleted one
is empty and not the located one. -/
structure MapRowValid (raw : Page) (located : UInt8) (directoryEnd row : ℕ) : Prop where
  flagged : maxUnflaggedRowOffset < rawOffset raw row →
    offsetFlags (rawOffset raw row) = deletedMapFlags ∧ row ≠ located.toNat ∧
      rowStart raw row ≤ pageBytes
  directory_le : directoryEnd ≤ rowStart raw row
  le_stop : rowStart raw row ≤ rowStop raw row
  empty_iff : rowStart raw row = rowStop raw row ↔
    offsetFlags (rawOffset raw row) = deletedMapFlags

/-- The check of a row accepts what `MapRowValid` says, and gives the start of the row. -/
theorem checkMapRow_ok_iff {raw : Page} {located : UInt8} {directoryEnd row start : ℕ} :
    checkMapRow raw located directoryEnd (rowStop raw row) row = .ok start ↔
      MapRowValid raw located directoryEnd row ∧ start = rowStart raw row := by
  have hstart : rawOffset raw row &&& offsetMask = rowStart raw row := rfl
  have hdeleted : decide (rowStart raw row = rowStop raw row) =
        decide (offsetFlags (rawOffset raw row) = deletedMapFlags) ↔
      (rowStart raw row = rowStop raw row ↔
        offsetFlags (rawOffset raw row) = deletedMapFlags) := decide_eq_decide
  simp only [checkMapRow, bind_ok_iff, exists_unit, refuseIf_ok_iff, pure_ok_iff, hstart, ne_eq,
    not_or, not_not, hdeleted, not_and, decide_eq_false_iff_not, gt_iff_lt, not_lt]
  constructor
  · rintro ⟨hflag, ⟨hdir, hstop, hempty⟩, rfl⟩
    exact ⟨⟨hflag, hdir, hstop, hempty⟩, rfl⟩
  · rintro ⟨⟨hflag, hdir, hstop, hempty⟩, rfl⟩
    exact ⟨hflag, ⟨hdir, hstop, hempty⟩, rfl⟩

/-- One iteration of the walk succeeds exactly when the row is valid. -/
theorem mapRowStep_ok_iff {raw : Page} {located : UInt8} {directoryEnd row : ℕ}
    {selected : Option Range} {state : ℕ × Option Range} :
    mapRowStep raw located directoryEnd (rowStop raw row, selected) row = .ok state ↔
      MapRowValid raw located directoryEnd row ∧
        state = (rowStart raw row,
          if row = located.toNat then
            some { start := rowStart raw row, stop := rowStop raw row }
          else selected) := by
  simp only [mapRowStep, bind_ok_iff, checkMapRow_ok_iff]
  constructor
  · rintro ⟨start, ⟨hvalid, rfl⟩, hstate⟩
    refine ⟨hvalid, ?_⟩
    by_cases h : row = located.toNat
    · rw [if_pos h] at hstate ⊢
      exact (pure_ok_iff.mp hstate).symm
    · rw [if_neg h] at hstate ⊢
      exact (pure_ok_iff.mp hstate).symm
  · rintro ⟨hvalid, rfl⟩
    refine ⟨_, ⟨hvalid, rfl⟩, ?_⟩
    split <;> rfl

/-- The walk over the first `count` rows succeeds exactly when they are all valid; it has selected
the located row once it has passed it. -/
theorem mapRowLoop_ok_iff {raw : Page} {located : UInt8} {directoryEnd : ℕ} (count : ℕ)
    (state : ℕ × Option Range) :
    (List.range count).foldlM (mapRowStep raw located directoryEnd) (pageBytes, none) = .ok state ↔
      (∀ row < count, MapRowValid raw located directoryEnd row) ∧
        state = (rowStop raw count,
          if located.toNat < count then
            some { start := rowStart raw located.toNat, stop := rowStop raw located.toNat }
          else none) := by
  induction count generalizing state with
  | zero => simp [rowStop_zero, eq_comm (a := state)]
  | succ count ih =>
    rw [List.range_succ, List.foldlM_append]
    simp only [bind_ok_iff, List.foldlM_cons, List.foldlM_nil, pure_ok_iff, ih]
    -- the located row is selected at its own step and kept by the later ones
    have hselect : (if count = located.toNat then
          some ({ start := rowStart raw count, stop := rowStop raw count } : Range)
        else if located.toNat < count then
          some { start := rowStart raw located.toNat, stop := rowStop raw located.toNat }
        else none) =
        if located.toNat < count + 1 then
          some { start := rowStart raw located.toNat, stop := rowStop raw located.toNat }
        else none := by
      by_cases h : count = located.toNat
      · rw [if_pos h, if_pos (by omega), h]
      · by_cases hlt : located.toNat < count
        · rw [if_neg h, if_pos hlt, if_pos (by omega)]
        · rw [if_neg h, if_neg hlt, if_neg (by omega)]
    rw [rowStop_succ, ← hselect]
    constructor
    · rintro ⟨_, ⟨hrows, rfl⟩, _, hstep, rfl⟩
      obtain ⟨hvalid, rfl⟩ := mapRowStep_ok_iff.mp hstep
      refine ⟨fun row hrow => ?_, rfl⟩
      rcases Nat.lt_succ_iff_lt_or_eq.mp hrow with h | rfl
      · exact hrows row h
      · exact hvalid
    · rintro ⟨hrows, rfl⟩
      exact ⟨_, ⟨fun row hrow => hrows row (by omega), rfl⟩, _,
        mapRowStep_ok_iff.mpr ⟨hrows count (by omega), rfl⟩, rfl⟩

/-- A row is located exactly when it is a row of a data page all of whose rows are valid, and its
record is the bytes between its bounds. -/
theorem locateUsageMap_ok_iff {page : ClassifiedPage} {locator : MapRowLocator}
    {record : UsageMapRecord} :
    locateUsageMap page locator = .ok record ↔
      page.number = locator.page ∧ page.kind = .data ∧
        u16At page.raw rowCountOffset ≤ maxRowCount ∧
        locator.row.toNat < u16At page.raw rowCountOffset ∧
        (∀ row < u16At page.raw rowCountOffset, MapRowValid page.raw locator.row
          (directoryOffset + entryLen * u16At page.raw rowCountOffset) row) ∧
        record =
          { location := locator
            raw := page.raw.slice (rowStart page.raw locator.row.toNat)
              (rowStop page.raw locator.row.toNat)
            range :=
              { start := rowStart page.raw locator.row.toNat
                stop := rowStop page.raw locator.row.toNat } } := by
  simp only [locateUsageMap, bind_ok_iff, exists_unit, refuseIf_ok_iff, ne_eq, not_not, not_lt,
    ge_iff_le, not_le, gt_iff_lt, mapRowLoop_ok_iff, okOr_ok_iff, pure_ok_iff]
  constructor
  · rintro ⟨hnumber, hkind, hcount, hrow, _, ⟨hrows, rfl⟩, range, hrange, rfl⟩
    rw [if_pos hrow, Option.some.injEq] at hrange
    subst hrange
    exact ⟨hnumber, hkind, hcount, hrow, hrows, rfl⟩
  · rintro ⟨hnumber, hkind, hcount, hrow, hrows, rfl⟩
    exact ⟨hnumber, hkind, hcount, hrow, _, ⟨hrows, rfl⟩, _, if_pos hrow, rfl⟩

/-- The rows of a valid directory end inside the page. -/
theorem rowStop_le_of_valid {raw : Page} {located : UInt8} {directoryEnd count : ℕ}
    (h : ∀ row < count, MapRowValid raw located directoryEnd row) :
    ∀ row < count, rowStop raw row ≤ pageBytes := by
  intro row
  induction row with
  | zero => exact fun _ => le_of_eq (rowStop_zero raw)
  | succ row ih =>
    intro hrow
    have hprior : row < count := Nat.lt_of_succ_lt hrow
    rw [rowStop_succ]
    exact (h row hprior).le_stop.trans (ih hprior)

/-- The record of a located row is inside its page. -/
theorem UsageMapRecord.stop_le {page : ClassifiedPage} {locator : MapRowLocator}
    {record : UsageMapRecord} (h : locateUsageMap page locator = .ok record) :
    record.range.stop ≤ pageBytes := by
  obtain ⟨-, -, -, hrow, hrows, rfl⟩ := locateUsageMap_ok_iff.mp h
  exact rowStop_le_of_valid hrows _ hrow

/-- The record of a located row is the bytes of its range. -/
theorem UsageMapRecord.of_locate {page : ClassifiedPage} {locator : MapRowLocator}
    {record : UsageMapRecord} (h : locateUsageMap page locator = .ok record) :
    record.raw = page.raw.slice record.range.start record.range.stop ∧
      record.range.start + record.raw.length = record.range.stop := by
  obtain ⟨-, -, -, hrow, hrows, rfl⟩ := locateUsageMap_ok_iff.mp h
  refine ⟨rfl, ?_⟩
  rw [Block.length_slice]
  exact Nat.add_sub_cancel' (hrows _ hrow).le_stop

end Jet3
