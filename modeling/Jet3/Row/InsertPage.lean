import Jet3.Format.DataPageBuilder
import Jet3.Row.SlotEdit

/-!
# Appending a row

`DataPageEditor.append` stores a row in the first unused slot of a packed page.
`append_editRefines` says the new page refines the old slot map extended by that slot.
-/

namespace Jet3

open Outcome

namespace DataPageEditor

variable {owner : PageNumber}

/-- Appends `row`; nothing when the row does not fit. -/
def append (editor : DataPageEditor owner) (row : List UInt8) (physical : Option RowSlot) :
    Except WriteError (Option (Page × UInt8)) := do
  let count := editor.directory.rowCount
  if count = 0 then return none else
  let live ← editor.liveRows physical.isSome "page contains nonordinary row slots"
  if live = 0 then return none else
  let packed ← editor.packed "data page free-byte count"
  let state := physical.getD .ordinary
  state.checkLength row.length
  refuseIf (state = .deleted) (.mismatch "appending a deleted row")
  let needed := row.length + entryLen
  if count ≥ maxBuiltRows ∨ packed.free < needed then return none else
  let start ← okOr (checkedSub packed.lowest row.length) (.mismatch "row start")
  let newFree ← okOr (toU16 (packed.free - needed)) (.mismatch "free bytes")
  let offset ← okOr (toU16 start) (.mismatch "row offset")
  let word := offset ||| state.flags
  let patched ← WriteError.ofError (writeAt editor.source start row)
  let patched ← writeSlot patched count word
  let patched ← writeFree patched newFree
  let patched ← WriteError.ofError (writeAt patched rowCountOffset (leBytes 2 (count + 1)))
  return some (patched, UInt8.ofNat count)

/-- What an append that stores the row did. -/
theorem append_ok {editor : DataPageEditor owner} {row : List UInt8} {physical : Option RowSlot}
    {image : Page} {slot : UInt8}
    (h : editor.append row physical = .ok (some (image, slot))) :
    ∃ live packed,
      editor.liveRows physical.isSome "page contains nonordinary row slots" = .ok live ∧
      editor.packed "data page free-byte count" = .ok packed ∧
      (physical.getD .ordinary).validLength row.length = true ∧
      editor.directory.rowCount < maxBuiltRows ∧ row.length + entryLen ≤ packed.free ∧
      row.length ≤ packed.lowest ∧ packed.lowest - row.length < 65536 ∧
      packed.free - (row.length + entryLen) < 65536 ∧ packed.lowest ≤ pageBytes ∧
      slot = UInt8.ofNat editor.directory.rowCount ∧
      image = (((editor.source.write (packed.lowest - row.length) row).write
          (directoryOffset + entryLen * editor.directory.rowCount)
          (leBytes 2 ((packed.lowest - row.length) ||| (physical.getD .ordinary).flags))).write
          freeSpaceOffset (leBytes 2 (packed.free - (row.length + entryLen)))).write
          rowCountOffset (leBytes 2 (editor.directory.rowCount + 1)) := by
  simp only [append] at h
  split at h
  · simp at h
  simp only [bind_ok_iff] at h
  obtain ⟨live, hlive, h⟩ := h
  split at h
  · simp at h
  simp only [bind_ok_iff, exists_unit, RowSlot.checkLength_ok_iff, refuseIf_ok_iff] at h
  obtain ⟨packed, hpacked, hlength, -, h⟩ := h
  split at h
  · simp at h
  rename_i hroom
  simp only [bind_ok_iff, okOr_ok_iff, checkedSub_eq_some, toU16_eq_some, writeFree,
    WriteError.ofError_ok_iff, writeAt_ok_iff, writeSlot_ok_iff, pure_ok_iff, Option.some.injEq,
    Prod.mk.injEq] at h
  obtain ⟨start, ⟨hstart, rfl⟩, newFree, ⟨hfree, rfl⟩, offset, ⟨hoffset, rfl⟩, _, ⟨hfit, rfl⟩,
    _, ⟨-, rfl⟩, _, ⟨-, rfl⟩, _, ⟨-, rfl⟩, rfl, rfl⟩ := h
  refine ⟨live, packed, hlive, hpacked, hlength, ?_, ?_, hstart, hoffset, hfree, ?_, rfl, rfl⟩ <;>
    omega

end DataPageEditor

/-- `image` is `source` with `row` stored below its lowest row, in a new last slot. -/
structure Appended (source image : Page) (count : ℕ) (row : List UInt8) (state : RowSlot) :
    Prop where
  before : Layout source count (rowStart source) (rowState source)
  pos : 0 < count
  fits : count < maxBuiltRows
  room : DataPageDirectory.directoryEnd (count + 1) + row.length ≤ rowStart source (count - 1)
  length : state.validLength row.length = true
  rowCount : DataPageDirectory.declaredRowCount image = count + 1
  owner : RowDirectory.ownerWord image = RowDirectory.ownerWord source
  free : u16At image freeSpaceOffset = rowStart source (count - 1) - row.length -
    DataPageDirectory.directoryEnd (count + 1)
  words : ∀ r < count, rawOffset image r = rawOffset source r
  word : rawOffset image count = (rowStart source (count - 1) - row.length) ||| state.flags
  above : ∀ i, rowStart source (count - 1) ≤ i → image.get i = source.get i
  stored : image.slice (rowStart source (count - 1) - row.length) (rowStart source (count - 1)) =
    row

namespace Appended

variable {source image : Page} {count : ℕ} {row : List UInt8} {state : RowSlot}

/-- The row starts after the append. -/
def starts (source : Page) (count : ℕ) (row : List UInt8) (r : ℕ) : ℕ :=
  if r < count then rowStart source r else rowStart source (count - 1) - row.length

/-- The rows of the page end where they did. -/
theorem stopOf_starts_of_lt {r : ℕ} (hr : r < count) :
    stopOf (starts source count row) r = rowStop source r := by
  unfold stopOf rowStop starts
  split
  · rfl
  · rw [if_pos (by omega)]

/-- The new row ends where the last one starts. -/
theorem stopOf_starts_last (hpos : 0 < count) :
    stopOf (starts source count row) count = rowStart source (count - 1) := by
  unfold stopOf starts
  rw [if_neg (by omega), if_pos (by omega)]

theorem starts_last : starts source count row count = rowStart source (count - 1) - row.length :=
  if_neg (lt_irrefl _)

/-- The layout of the page with one more row. -/
theorem layout (h : Appended source image count row state) :
    Layout image (count + 1) (starts source count row)
      fun r => if r < count then rowState source r else state := by
  have hroom := h.room
  refine ⟨h.rowCount, by have := h.fits; simp only [maxBuiltRows] at this; omega,
    fun r hr => ?_, fun r hr => ?_, fun r hr => ?_, fun r hr => ?_⟩ <;>
    rcases Nat.lt_succ_iff_lt_or_eq.mp hr with hlt | rfl
  · rw [h.words r hlt, h.before.word r hlt, starts, if_pos hlt, if_pos hlt]
  · rw [h.word, starts_last, if_neg (lt_irrefl _)]
  · have hbelow := h.before.start_antitone (i := r) (j := count - 1) (by omega) (by omega)
    rw [starts, if_pos hlt]
    omega
  · rw [starts_last]
    omega
  · rw [stopOf_starts_of_lt hlt, starts, if_pos hlt]
    exact h.before.le_stop r hlt
  · rw [stopOf_starts_last h.pos, starts_last]
    omega
  · rw [stopOf_starts_of_lt hlt, starts, if_pos hlt, if_pos hlt]
    exact h.before.length r hlt
  · rw [stopOf_starts_last h.pos, starts_last, if_neg (lt_irrefl _)]
    convert h.length using 2
    omega

/-- An appended row refines the slot map extended by the first unused slot. -/
theorem editRefines {owner : PageNumber} {editor : DataPageEditor owner} {slot : UInt8}
    (h : Appended editor.source image count row state) (hslot : slot.toNat = count) :
    EditRefines editor image slot ⟨state, row⟩ (count + 1) := by
  have hroom := h.room
  refine EditRefines.of_layout h.before h.layout h.owner ?_ (by omega) ?_ (fun r hr => by omega)
    fun r hr hne => ⟨if_pos hr, ?_⟩
  · rw [h.free, Nat.add_sub_cancel, starts_last]
  · rw [hslot, stopOf_starts_last h.pos, starts_last, h.stored, if_neg (lt_irrefl _)]
  · rw [stopOf_starts_of_lt hr, starts, if_pos hr]
    refine Block.slice_congr rfl fun i hi => h.above _ ?_
    have hbelow := h.before.start_antitone (i := r) (j := count - 1) (by omega) (by omega)
    omega

end Appended

namespace DataPageEditor

variable {owner : PageNumber}

/-- The page an append returns. -/
theorem append_appended {editor : DataPageEditor owner} {row : List UInt8}
    {physical : Option RowSlot} {image : Page} {slot : UInt8}
    (h : editor.append row physical = .ok (some (image, slot))) :
    Appended editor.source image editor.directory.rowCount row (physical.getD .ordinary) := by
  obtain ⟨live, packed, hlive, hpacked, hlength, hmax, hroom, hlowest, hoffset, hfree, hpage,
    rfl, himage⟩ := append_ok h
  obtain ⟨before, -⟩ := liveRows_ok hlive
  rw [packed_ok_iff, ← editor.rowCount_eq] at hpacked
  obtain ⟨hpos, hgap, rfl⟩ := hpacked
  dsimp only at hroom hlowest hoffset hfree hpage himage
  rw [hgap] at hroom hfree himage
  set n := editor.directory.rowCount
  set state := physical.getD .ordinary
  set lowest := rowStart editor.source (n - 1)
  -- the directory ends before the last row starts, so the writes do not overlap
  have hdirectory := before.directory_le (n - 1) (by omega)
  have hend : DataPageDirectory.directoryEnd n = 10 + 2 * n := rfl
  have hnext : DataPageDirectory.directoryEnd (n + 1) = 10 + 2 * (n + 1) := rfl
  rw [hend] at hroom hfree himage hdirectory
  simp only [entryLen, directoryOffset, freeSpaceOffset, rowCountOffset] at hroom hfree himage
  simp only [maxBuiltRows] at hmax
  have hfits : 10 + 2 * n + 2 ≤ pageBytes := by omega
  refine ⟨before, hpos, hmax, by omega, hlength, ?_, ?_, ?_, fun r hr => ?_, ?_, fun i hi => ?_, ?_⟩
  · simp only [DataPageDirectory.declaredRowCount, rowCountOffset, u16At]
    rw [himage, Block.le_write_self _ (length_leBytes 2 _) (by decide),
      leValue_leBytes_of_lt (by omega)]
  · simp only [RowDirectory.ownerWord, DataPageDirectory.owner, ownerOffset]
    rw [himage, Block.slice_write_of_disjoint _ (by simp),
      Block.slice_write_of_disjoint _ (by simp),
      Block.slice_write_of_disjoint _ (by simp; omega),
      Block.slice_write_of_disjoint _ (by omega)]
  · simp only [freeSpaceOffset, u16At]
    rw [himage, Block.le_write_of_disjoint _ (by simp),
      Block.le_write_self _ (length_leBytes 2 _) (by decide), leValue_leBytes_of_lt hfree, hnext]
    omega
  · simp only [rawOffset, directoryOffset, entryLen, u16At]
    rw [himage, Block.le_write_of_disjoint _ (by simp),
      Block.le_write_of_disjoint _ (by simp; omega),
      Block.le_write_of_disjoint _ (by simp; omega),
      Block.le_write_of_disjoint _ (by omega)]
  · simp only [rawOffset, directoryOffset, entryLen, u16At]
    rw [himage, Block.le_write_of_disjoint _ (by simp),
      Block.le_write_of_disjoint _ (by simp; omega),
      Block.le_write_self _ (length_leBytes 2 _) hfits,
      leValue_leBytes_of_lt (word_lt hoffset state)]
  · rw [himage, Block.get_write_of_notMem (by simp; omega),
      Block.get_write_of_notMem (by simp; omega), Block.get_write_of_notMem (by simp; omega),
      Block.get_write_of_notMem (by omega)]
  · rw [himage, Block.slice_write_of_disjoint _ (by simp; omega),
      Block.slice_write_of_disjoint _ (by simp; omega),
      Block.slice_write_of_disjoint _ (by simp; omega), Block.slice_write_self _ (by omega) hpage]

/-- An append that stores the row gives it the first unused slot and changes no other slot. -/
theorem append_editRefines {editor : DataPageEditor owner} {row : List UInt8}
    {physical : Option RowSlot} {image : Page} {slot : UInt8}
    (h : editor.append row physical = .ok (some (image, slot))) :
    slot.toNat = editor.directory.rowCount ∧
      EditRefines editor image slot ⟨physical.getD .ordinary, row⟩
        (editor.directory.rowCount + 1) := by
  have happended := append_appended h
  have hnat : slot.toNat = editor.directory.rowCount := by
    obtain ⟨live, packed, -, -, -, hmax, -, -, -, -, -, rfl, -⟩ := append_ok h
    rw [UInt8.toNat_ofNat']
    simp only [maxBuiltRows] at hmax
    omega
  exact ⟨hnat, happended.editRefines hnat⟩

end DataPageEditor

end Jet3
