import Jet3.Row.SlotEdit

/-!
# Replacing a row

`DataPageEditor.replace` gives a slot new bytes in place, moving the rows below it.
`replace_editRefines` says the new page refines the old slot map with that slot rebound.
-/

namespace Jet3

open Outcome

namespace DataPageEditor

variable {owner : PageNumber}

/-- The directory word of `ordinal` after `slot`, which was `oldLen` bytes long, holds `len` bytes
in state `state`. -/
def replacedWord (editor : DataPageEditor owner) (slot : UInt8) (oldLen len : ℕ) (state : RowSlot)
    (ordinal : ℕ) : Except WriteError ℕ := do
  let entry ← editor.entry (UInt8.ofNat ordinal)
  let offset ← okOr (checkedSub (entry.range.start + oldLen) len)
    (.mismatch "replacement slot offset")
  refuseIf (¬offset ≤ pageBytes) (.mismatch "replacement slot offset")
  let flags ← rewrittenFlags entry (ordinal = slot.toNat) state.flags
  let offset ← okOr (toU16 offset) (.mismatch "replacement slot width")
  return offset ||| flags

/-- Replaces the bytes of `slot` on its own page; nothing when the page lacks room. -/
def replace (editor : DataPageEditor owner) (slot : UInt8) (encoded : List UInt8)
    (physical : Option RowSlot) : Except WriteError (Option Page) := do
  let count := editor.directory.rowCount
  let target ← editor.entry slot
  let previous ← RowSlot.read target
  refuseIf (previous = .deleted ∨ (physical.isNone ∧ previous ≠ .ordinary))
    (.unsupported "replacement target is not an ordinary live row")
  let _ ← editor.liveRows physical.isSome "replacement page contains an unsupported row slot"
  let old := target.range
  let packed ← editor.packed "replacement free-byte count"
  match checkedSub (packed.free + old.len) encoded.length with
  | none => return none
  | some newFree =>
    let state := physical.getD .ordinary
    state.checkLength encoded.length
    refuseIf encoded.isEmpty (.unsupported "empty replacement row")
    let newStart ← okOr (checkedSub old.stop encoded.length) (.mismatch "replacement row boundary")
    let image ← WriteError.ofError (writeAt editor.source (packed.directoryEnd + newFree)
      (editor.source.slice packed.lowest old.start))
    let image ← WriteError.ofError (writeAt image newStart encoded)
    let image ← (List.range' slot.toNat (count - slot.toNat)).foldlM (fun image ordinal => do
      writeSlot image ordinal (← replacedWord editor slot old.len encoded.length state ordinal))
      image
    let free ← okOr (toU16 newFree) (.mismatch "replacement free-byte width")
    let image ← writeFree image free
    return some image

/-- The words the loop of a replacement computes. -/
theorem replacedWord_ok {editor : DataPageEditor owner} {slot : UInt8} {oldLen len : ℕ}
    {state : RowSlot} {row w : ℕ} (hrow : row < editor.directory.rowCount)
    (h : replacedWord editor slot oldLen len state row = .ok w) :
    w = (rowStart editor.source row + oldLen - len) |||
      (if row = slot.toNat then state else rowState editor.source row).flags ∧ w < 65536 := by
  have hle := editor.rowsValid.count_le
  have hcount := editor.rowCount_eq
  have hnat : (UInt8.ofNat row).toNat = row := by
    rw [UInt8.toNat_ofNat']
    omega
  simp only [replacedWord, bind_ok_iff, entry_ok_iff, okOr_ok_iff, checkedSub_eq_some, exists_unit,
    refuseIf_ok_iff, toU16_eq_some, pure_ok_iff] at h
  obtain ⟨_, ⟨-, rfl⟩, offset, ⟨-, rfl⟩, -, flags, hflags, _, ⟨hlt, rfl⟩, rfl⟩ := h
  simp only [pageEntry, hnat] at hlt ⊢
  have hstate := rewrittenFlags_ok state hflags
  simp only [decide_eq_true_eq, hnat] at hstate
  rw [hstate]
  exact ⟨rfl, word_lt hlt _⟩

/-- A replacement that fits leaves the page shifted around its slot. -/
theorem replace_shifted {editor : DataPageEditor owner} {slot : UInt8} {encoded : List UInt8}
    {physical : Option RowSlot} {image : Page}
    (h : editor.replace slot encoded physical = .ok (some image)) :
    Shifted editor.source image editor.directory.rowCount slot.toNat encoded.length
        (physical.getD .ordinary) ∧
      image.slice (rowStop editor.source slot.toNat - encoded.length)
        (rowStop editor.source slot.toNat) = encoded := by
  simp only [replace, bind_ok_iff, entry_ok_iff, exists_unit, refuseIf_ok_iff] at h
  obtain ⟨_, ⟨hslot, rfl⟩, previous, -, -, live, hlive, packed, hpacked, h⟩ := h
  split at h
  · simp at h
  rename_i newFree hnew
  simp only [bind_ok_iff, exists_unit, refuseIf_ok_iff, RowSlot.checkLength_ok_iff, okOr_ok_iff,
    checkedSub_eq_some, WriteError.ofError_ok_iff, writeAt_ok_iff, toU16_eq_some, writeFree,
    pure_ok_iff, Option.some.injEq] at h hnew
  obtain ⟨hlength, -, newStart, ⟨hstart, rfl⟩, moved, ⟨hmovedFit, hmoved⟩, stored,
    ⟨hstoredFit, hstored⟩, looped, hloop, free, ⟨hfree, rfl⟩, _, ⟨-, rfl⟩, rfl⟩ := h
  obtain ⟨before, -⟩ := liveRows_ok hlive
  obtain ⟨hwords, hframe⟩ := writeSlots_ok hloop
  rw [packed_ok_iff, ← editor.rowCount_eq] at hpacked
  obtain ⟨hpos, hgap, rfl⟩ := hpacked
  rw [← editor.rowCount_eq] at hslot
  have hwords' : ∀ row, slot.toNat ≤ row → row < editor.directory.rowCount →
      rawOffset looped row = (rowStart editor.source row + rowLen editor.source slot.toNat -
        encoded.length) ||| (if row = slot.toNat then physical.getD .ordinary
          else rowState editor.source row).flags := by
    intro row hlo hhi
    obtain ⟨w, hw, hraw⟩ := hwords row hlo (by omega)
    obtain ⟨hword, hlt⟩ := replacedWord_ok hhi hw
    rw [hraw, Nat.mod_eq_of_lt hlt, hword]
    rfl
  simp only [pageEntry, Range.len] at *
  obtain ⟨hroom, rfl⟩ := hnew
  have hlowest := before.directory_le (editor.directory.rowCount - 1) (by omega)
  have hmono := before.start_antitone (i := slot.toNat) (j := editor.directory.rowCount - 1)
    (by omega) (by omega)
  have hstop : rowStart editor.source slot.toNat ≤ rowStop editor.source slot.toNat :=
    before.le_stop _ hslot
  rw [hgap] at hroom hmoved hmovedFit hfree ⊢
  have hlen : rowLen editor.source slot.toNat =
    rowStop editor.source slot.toNat - rowStart editor.source slot.toNat := rfl
  generalize editor.directory.rowCount = n at *
  generalize hlowestEq : rowStart editor.source (n - 1) = lowest at *
  have hend : DataPageDirectory.directoryEnd n = 10 + 2 * n := rfl
  have hframe' : ∀ i, i < 10 + 2 * slot.toNat ∨ 10 + 2 * n ≤ i → looped.get i = stored.get i :=
    fun i hi => hframe i (by simp only [directoryOffset, entryLen]; omega)
  -- the moved rows and the new bytes lie above the directory and below the old end of the slot
  have hmovedAt : DataPageDirectory.directoryEnd n +
      (lowest - DataPageDirectory.directoryEnd n +
        (rowStop editor.source slot.toNat - rowStart editor.source slot.toNat) - encoded.length) =
      lowest + rowLen editor.source slot.toNat - encoded.length := by omega
  have hslice : (editor.source.slice lowest (rowStart editor.source slot.toNat)).length =
      rowStart editor.source slot.toNat - lowest := Block.length_slice _ _ _
  rw [hmovedAt] at hmoved hmovedFit
  have hlow : ∀ i < DataPageDirectory.directoryEnd n, stored.get i = editor.source.get i := by
    intro i hi
    rw [hstored, Block.get_write_of_notMem (by omega), hmoved,
      Block.get_write_of_notMem (by omega)]
  have habove : ∀ i, rowStop editor.source slot.toNat ≤ i → stored.get i = editor.source.get i := by
    intro i hi
    rw [hstored, Block.get_write_of_notMem (by omega), hmoved,
      Block.get_write_of_notMem (by omega)]
  have hmovedBytes : ∀ i < rowStart editor.source slot.toNat - lowest,
      stored.get (lowest + rowLen editor.source slot.toNat - encoded.length + i) =
        editor.source.get (lowest + i) := by
    intro i hi
    rw [hstored, Block.get_write_of_notMem (by omega), hmoved,
      Block.get_write_of_mem (by omega) (by omega) (by omega), Nat.add_sub_cancel_left,
      Block.getD_slice _ (by omega)]
  have hshifted := Shifted.of_writes before hslot hlength (by omega) rfl (by omega) hlow habove
    (hlowestEq ▸ hmovedBytes) hwords' (fun i hi => hframe' i (hend ▸ hi))
  refine ⟨?_, ?_⟩
  · convert hshifted using 3
    omega
  · rw [Block.slice_write_of_disjoint _ (by simp [freeSpaceOffset]; omega),
      Block.slice_congr rfl fun i hi => hframe' _ (by omega), hstored,
      Block.slice_write_self _ (by omega) (by omega)]

/-- A replacement that fits rebinds its slot and changes no other slot. -/
theorem replace_editRefines {editor : DataPageEditor owner} {slot : UInt8} {encoded : List UInt8}
    {physical : Option RowSlot} {image : Page}
    (h : editor.replace slot encoded physical = .ok (some image)) :
    EditRefines editor image slot ⟨physical.getD .ordinary, encoded⟩ editor.directory.rowCount :=
  (replace_shifted h).1.editRefines (replace_shifted h).2

end DataPageEditor

end Jet3
