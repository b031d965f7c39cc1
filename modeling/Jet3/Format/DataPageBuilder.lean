import Jet3.Format.DataPageDirectory
import Jet3.Format.PageKind

/-!
# Building data pages

`DataPageBuilder` appends primary rows to a new data page: rows are packed downward from the page
end and directory entries grow upward, so slot `n` is the `n`th row appended.
-/

namespace Jet3

open Outcome

/-- The number of rows the writer puts on one page. -/
def maxBuiltRows : ℕ := 255

/-- Why a row cannot be put on a page. -/
inductive PageImageError where
  | ownerNotRepresentable (owner : PageNumber)
  | emptyRow
  | pageFull (needed available : ℕ)
  | rowSlotsExhausted (maximum : ℕ)
  | encoding (source : Error)
  deriving DecidableEq, Repr

/-- A page under construction: its rows grow from the end of the page towards the directory. -/
structure DataPageBuilder where
  image : Page
  rowCount : ℕ
  freeEnd : ℕ

namespace DataPageBuilder

/-- Wraps a failed write into the image. -/
def encode {α : Type} (x : Except Error α) : Except PageImageError α :=
  x.mapError .encoding

/-- `DataPageBuilder::new`: an empty data page owned by a table-definition root. -/
def new (owner : PageNumber) : Except PageImageError DataPageBuilder := do
  refuseIf (¬owner < 2 ^ 32) (.ownerNotRepresentable owner)
  let image ← encode (writeAt (PageKind.newImage .data) ownerOffset (leBytes 4 owner))
  return { image, rowCount := 0, freeEnd := pageBytes }

/-- `DataPageBuilder::new_long_value`: an empty long-value page. -/
def newLongValue : Except PageImageError DataPageBuilder := do
  let image ← encode (writeAt (PageKind.newImage .data) ownerOffset longValueOwner)
  return { image, rowCount := 0, freeEnd := pageBytes }

/-- The bytes available for one more row and its directory entry. -/
def freeBytes (builder : DataPageBuilder) : ℕ :=
  builder.freeEnd - (directoryOffset + entryLen * builder.rowCount)

/-- Appends one primary row and returns its slot. -/
def appendRow (builder : DataPageBuilder) (row : List UInt8) :
    Except PageImageError (DataPageBuilder × UInt8) := do
  refuseIf (row = []) .emptyRow
  refuseIf (builder.rowCount ≥ maxBuiltRows) (.rowSlotsExhausted maxBuiltRows)
  let needed := row.length + entryLen
  refuseIf (needed > builder.freeBytes) (.pageFull needed builder.freeBytes)
  let start := builder.freeEnd - row.length
  let entry := directoryOffset + entryLen * builder.rowCount
  -- the flag bits above the mask are never set
  refuseIf (start > offsetMask) (.encoding (.arithmetic "encode data-page row offset"))
  let image ← encode (writeAt builder.image start row)
  let image ← encode (writeAt image entry (leBytes 2 start))
  let image ← encode (writeAt image rowCountOffset (leBytes 2 (builder.rowCount + 1)))
  return ({ image, rowCount := builder.rowCount + 1, freeEnd := start },
    UInt8.ofNat builder.rowCount)

/-- A builder is made where the owner fits its field. -/
theorem new_ok_iff {owner : PageNumber} {builder : DataPageBuilder} :
    new owner = .ok builder ↔ owner < 2 ^ 32 ∧ builder =
      { image := (PageKind.newImage .data).write ownerOffset (leBytes 4 owner), rowCount := 0
        freeEnd := pageBytes } := by
  simp only [new, encode, bind_ok_iff, exists_unit, refuseIf_ok_iff, mapError_ok_iff,
    writeAt_ok_iff, pure_ok_iff, not_not, length_leBytes]
  constructor
  · rintro ⟨howner, _, ⟨-, rfl⟩, rfl⟩
    exact ⟨howner, rfl⟩
  · rintro ⟨howner, rfl⟩
    exact ⟨howner, _, ⟨by decide, rfl⟩, rfl⟩

/-- The state of a builder between two rows. -/
structure Invariant (builder : DataPageBuilder) : Prop where
  freeEnd_le : builder.freeEnd ≤ pageBytes
  entries_le : directoryOffset + entryLen * builder.rowCount ≤ builder.freeEnd

/-- A row is appended exactly when a slot is left and the row fits behind its directory entry. -/
theorem appendRow_ok_iff {builder next : DataPageBuilder} {row : List UInt8} {slot : UInt8}
    (h : builder.Invariant) :
    builder.appendRow row = .ok (next, slot) ↔
      row ≠ [] ∧ builder.rowCount < maxBuiltRows ∧ row.length + entryLen ≤ builder.freeBytes ∧
        slot = UInt8.ofNat builder.rowCount ∧
        next =
          { image := ((builder.image.write (builder.freeEnd - row.length) row).write
              (directoryOffset + entryLen * builder.rowCount)
              (leBytes 2 (builder.freeEnd - row.length))).write rowCountOffset
              (leBytes 2 (builder.rowCount + 1))
            rowCount := builder.rowCount + 1, freeEnd := builder.freeEnd - row.length } := by
  have hend := h.freeEnd_le
  have hentries := h.entries_le
  have hmask : pageBytes ≤ offsetMask := by decide
  have hpage : pageBytes = 2048 := rfl
  simp only [appendRow, encode, bind_ok_iff, exists_unit, refuseIf_ok_iff, mapError_ok_iff,
    writeAt_ok_iff, pure_ok_iff, Prod.mk.injEq, length_leBytes, ge_iff_le, not_le, gt_iff_lt,
    not_lt]
  constructor
  · rintro ⟨hrow, hslots, hfits, -, _, ⟨-, rfl⟩, _, ⟨-, rfl⟩, _, ⟨-, rfl⟩, rfl, rfl⟩
    exact ⟨hrow, hslots, hfits, rfl, rfl⟩
  · rintro ⟨hrow, hslots, hfits, rfl, rfl⟩
    rw [freeBytes, entryLen, directoryOffset] at hfits
    rw [entryLen, directoryOffset] at hentries
    refine ⟨hrow, hslots, hfits, by omega, _, ⟨by omega, rfl⟩, _, ⟨?_, rfl⟩, _, ⟨by decide, rfl⟩,
      rfl, rfl⟩
    rw [directoryOffset, entryLen]
    omega

/-- A refused row leaves the reason: it is empty, no slot is left, or it does not fit. -/
theorem appendRow_error {builder : DataPageBuilder} {row : List UInt8}
    (hrow : row ≠ [])
    (hfull : ¬(builder.rowCount < maxBuiltRows ∧ row.length + entryLen ≤ builder.freeBytes)) :
    builder.appendRow row = .error (.rowSlotsExhausted maxBuiltRows) ∨
      ∃ needed available, builder.appendRow row = .error (.pageFull needed available) := by
  have hpass : refuseIf (row = []) PageImageError.emptyRow = .ok () := refuseIf_ok_iff.mpr hrow
  rw [appendRow, hpass]
  by_cases hslots : builder.rowCount ≥ maxBuiltRows
  · left
    have hrefused : refuseIf (builder.rowCount ≥ maxBuiltRows)
        (PageImageError.rowSlotsExhausted maxBuiltRows) =
          .error (.rowSlotsExhausted maxBuiltRows) :=
      if_pos hslots
    simp only [bind, Except.bind, hrefused]
  · right
    have hleft : refuseIf (builder.rowCount ≥ maxBuiltRows)
        (PageImageError.rowSlotsExhausted maxBuiltRows) = .ok () := refuseIf_ok_iff.mpr hslots
    have hrefused : refuseIf (row.length + entryLen > builder.freeBytes)
        (PageImageError.pageFull (row.length + entryLen) builder.freeBytes) =
        .error (.pageFull (row.length + entryLen) builder.freeBytes) := if_pos (by omega)
    refine ⟨row.length + entryLen, builder.freeBytes, ?_⟩
    simp only [bind, Except.bind, hleft, hrefused]

end DataPageBuilder

end Jet3
