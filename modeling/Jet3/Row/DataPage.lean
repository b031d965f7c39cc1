import Jet3.Write.Error

/-!
# Data-page editors

Row slots and the checked primitives the append, replace and remove operations share. A
`DataPageEditor` is a data page together with its validated directory; it can only be built by a
validation that succeeded, so every operation may rely on the page being accepted.

* `RowSlot` is the state of one physical slot: what its flags and its length say it holds;
* `liveRows` counts the slots in use and refuses the slots an operation cannot handle;
* `packed` requires the stored free-byte count to be the gap below the lowest row.
-/

namespace Jet3

open Outcome

/-- The state of a physical row slot. -/
inductive RowSlot where
  | ordinary
  | link
  | storage
  | storageLink
  | deleted
  deriving DecidableEq, Repr

namespace RowSlot

/-- The lengths a slot of this state may have. -/
def validLength : RowSlot → ℕ → Bool
  | deleted, length => length == 0
  | link, length | storageLink, length => length == 4
  | ordinary, length | storage, length => length != 0

/-- A slot has a length that rows of its kind have. -/
def checkLength (state : RowSlot) (length : ℕ) : Except WriteError Unit :=
  if state.validLength length then .ok () else .error (.mismatch "physical row slot length")

/-- The state the flags and the length of a slot select. -/
def classify (hidden overflow : Bool) (length : ℕ) : RowSlot :=
  match hidden, overflow, length with
  | true, true, 0 => deleted
  | true, true, _ => storageLink
  | true, false, _ => storage
  | false, true, _ => link
  | false, false, _ => ordinary

/-- The slot of a directory entry. -/
def read (entry : RowEntry) : Except WriteError RowSlot := do
  let length := entry.range.len
  let slot := classify entry.hidden entry.overflow length
  slot.checkLength length
  return slot

/-- The stored flags of a slot. -/
def flags : RowSlot → ℕ
  | ordinary => 0
  | link => 0x4000
  | storage => 0x8000
  | storageLink | deleted => 0xc000

/-- The check of a slot's length. -/
@[simp]
theorem checkLength_ok_iff {state : RowSlot} {length : ℕ} {u : Unit} :
    state.checkLength length = .ok u ↔ state.validLength length = true := by
  unfold checkLength
  split <;> simp [*]

end RowSlot

/-- A data page whose directory was validated for `owner`. Ordinary edits refuse pages holding
hidden or overflow rows other than deleted slots; physical edits accept every checked slot. -/
structure DataPageEditor (owner : PageNumber) where
  page : PageNumber
  source : Page
  directory : RowDirectory
  valid : RowDirectory.validate page owner source = .ok directory

/-- What repacking the rows has left: the lowest row, the end of the directory and the room
between. -/
structure Packed where
  lowest : ℕ
  directoryEnd : ℕ
  free : ℕ

namespace DataPageEditor

variable {owner : PageNumber}

/-- Opens a data page of the table for editing. -/
def openPage (page owner : PageNumber) (source : Page) : Except WriteError (DataPageEditor owner) :=
  match h : RowDirectory.validate page owner source with
  | .error e => .error (.directory e)
  | .ok directory => .ok { page, source, directory, valid := h }

/-- The directory entry of a slot. -/
def entry (editor : DataPageEditor owner) (slot : UInt8) : Except WriteError RowEntry :=
  WriteError.ofDirectory (editor.directory.entry editor.source slot)

/-- Counts the rows of the page that are not deleted; other slots are refused. -/
def liveRows (editor : DataPageEditor owner) (physical : Bool) (unsupported : String) :
    Except WriteError ℕ :=
  (List.range editor.directory.rowCount).foldlM (fun live ordinal => do
    let entry ← editor.entry (UInt8.ofNat ordinal)
    if physical then
      let state ← RowSlot.read entry
      return if state ≠ .deleted then live + 1 else live
    else if entry.hidden ∧ entry.overflow ∧ entry.range.isEmpty then return live
    else if entry.hidden ∨ entry.overflow ∨ entry.range.isEmpty then
      throw (.unsupported unsupported)
    else return live + 1) 0

/-- Requires the stored free-byte count to equal the gap below the lowest row. -/
def packed (editor : DataPageEditor owner) (mismatch : String) : Except WriteError Packed := do
  let count := editor.directory.rowCount
  refuseIf (count = 0) (.mismatch mismatch)
  let last ← editor.entry (UInt8.ofNat (count - 1))
  let lowest := last.range.start
  let directoryEnd := directoryOffset + entryLen * count
  let free := u16At editor.source freeSpaceOffset
  refuseIf (free ≠ lowest - directoryEnd) (.mismatch mismatch)
  return { lowest, directoryEnd, free }

end DataPageEditor

/-- The flags of a rewritten directory word: `own` for the addressed slot, those of its checked
state for any other. -/
def rewrittenFlags (entry : RowEntry) (addressed : Bool) (own : ℕ) : Except WriteError ℕ :=
  if addressed then pure own else RowSlot.flags <$> RowSlot.read entry

/-- Writes the directory word of a row. -/
def writeSlot (image : Page) (ordinal word : ℕ) : Except WriteError Page :=
  WriteError.ofError (writeAt image (directoryOffset + entryLen * ordinal) (leBytes 2 word))

/-- Writes the free space of the page. -/
def writeFree (image : Page) (free : ℕ) : Except WriteError Page :=
  WriteError.ofError (writeAt image freeSpaceOffset (leBytes 2 free))

end Jet3
