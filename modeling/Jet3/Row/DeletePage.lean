import Jet3.Row.SlotEdit

/-!
# Removing a row

`DataPageEditor.remove` turns a slot into a tombstone and moves the rows below it up; removing the
last row in use releases the page instead. `remove_editRefines` says either page refines the old
slot map with that slot deleted, and `remove_released` what a released page looks like.
-/

namespace Jet3

open Outcome

/-- The flags of a deleted row. -/
def tombstone : ℕ := 0xc000

/-- The first byte of a page without rows. -/
def releasedPageTag : UInt8 := 0x09

/-- The page a removal leaves, and whether it was released. -/
inductive Deletion where
  | retained (image : Page)
  | released (image : Page)

/-- The page behind a deletion, whether it keeps rows or not. -/
def Deletion.intoImage : Deletion → Page
  | retained image | released image => image

namespace DataPageEditor

variable {owner : PageNumber}

/-- The directory word of `ordinal` after `slot`, whose range was `range`, was removed. -/
def removedWord (editor : DataPageEditor owner) (slot : UInt8) (range : Range) (ordinal : ℕ) :
    Except WriteError ℕ := do
  let entry ← editor.entry (UInt8.ofNat ordinal)
  let start ← okOr
    (if ordinal = slot.toNat then some range.stop
      else (some (entry.range.start + range.len)).filter (· ≤ pageBytes))
    (.mismatch "compacted row offset")
  let flags ← rewrittenFlags entry (ordinal = slot.toNat) tombstone
  let start ← okOr (toU16 start) (.mismatch "tombstone offset")
  return start ||| flags

/-- Removes a row; a page without rows is released. -/
def remove (editor : DataPageEditor owner) (slot : UInt8) (physical : Bool) :
    Except WriteError Deletion := do
  let count := editor.directory.rowCount
  let target ← editor.entry slot
  let range := target.range
  let live ← editor.liveRows physical "page contains an unsupported row slot"
  refuseIf range.isEmpty (.notFound "live row slot")
  let packed ← editor.packed "data page free-byte count"
  let removed := range.len
  let newFree ← okOr (toU16 (packed.free + removed)) (.mismatch "free-byte range")
  if live = 1 then
    let patched ← WriteError.ofError (writeAt editor.source 0 [releasedPageTag])
    let patched ← (List.range' 0 count).foldlM (fun image ordinal => do
      writeSlot image ordinal (← pure (tombstone ||| pageBytes))) patched
    let patched ← writeFree patched newFree
    return .released patched
  else
    -- later row bytes move up and the vacated slack stays as it was
    let patched ← WriteError.ofError (writeAt editor.source (packed.lowest + removed)
      (editor.source.slice packed.lowest range.start))
    let patched ← (List.range' slot.toNat (count - slot.toNat)).foldlM (fun image ordinal => do
      writeSlot image ordinal (← removedWord editor slot range ordinal)) patched
    let patched ← writeFree patched newFree
    return .retained patched

/-- The words the loop of a removal computes. -/
theorem removedWord_ok {editor : DataPageEditor owner} {slot : UInt8} {row w : ℕ}
    (hrow : row < editor.directory.rowCount)
    (hstart : rowStart editor.source slot.toNat ≤ rowStop editor.source slot.toNat)
    (h : removedWord editor slot (pageEntry editor.page editor.source slot).range row = .ok w) :
    w = (rowStart editor.source row + rowLen editor.source slot.toNat - 0) |||
      (if row = slot.toNat then .deleted else rowState editor.source row).flags ∧ w < 65536 := by
  have hle := editor.rowsValid.count_le
  have hcount := editor.rowCount_eq
  have hnat : (UInt8.ofNat row).toNat = row := by
    rw [UInt8.toNat_ofNat']
    omega
  simp only [removedWord, bind_ok_iff, entry_ok_iff, okOr_ok_iff, toU16_eq_some, pure_ok_iff] at h
  obtain ⟨_, ⟨-, rfl⟩, start, hstartRow, flags, hflags, _, ⟨hlt, rfl⟩, rfl⟩ := h
  have hstate := rewrittenFlags_ok .deleted hflags
  simp only [decide_eq_true_eq, hnat] at hstate
  have hvalue : start = rowStart editor.source row + rowLen editor.source slot.toNat - 0 := by
    split at hstartRow
    · rename_i hsame
      rw [← Option.some_inj.mp hstartRow, hsame]
      simp only [pageEntry, rowLen]
      omega
    · obtain ⟨hsum, -⟩ := Option.filter_eq_some_iff.mp hstartRow
      rw [← Option.some_inj.mp hsum]
      simp only [pageEntry, hnat]
      rfl
  rw [hstate, hvalue]
  exact ⟨rfl, word_lt (hvalue ▸ hlt) _⟩

/-- When exactly one slot is in use, every other slot is deleted. -/
theorem deleted_of_liveCount_eq_one {page : Page} {count slot row : ℕ}
    (hlive : liveCount page count = 1) (hslot : slot < count)
    (hstate : rowState page slot ≠ .deleted) (hrow : row < count) (hne : row ≠ slot) :
    rowState page row = .deleted := by
  by_contra hother
  rw [liveCount, List.countP_eq_length_filter, List.length_eq_one_iff] at hlive
  obtain ⟨only, honly⟩ := hlive
  have hmem : ∀ r < count, rowState page r ≠ .deleted → r = only := by
    intro r hr hstate
    have : r ∈ (List.range count).filter fun row => rowState page row ≠ .deleted :=
      List.mem_filter.mpr ⟨List.mem_range.mpr hr, by simpa using hstate⟩
    rwa [honly, List.mem_singleton] at this
  exact hne ((hmem row hrow hother).trans (hmem slot hslot hstate).symm)

/-- When every slot but one is deleted, that slot holds the whole row area. -/
theorem whole_area_of_deleted {page : Page} {count slot : ℕ}
    (before : Layout page count (rowStart page) (rowState page)) (hslot : slot < count)
    (hdeleted : ∀ row < count, row ≠ slot → rowState page row = .deleted) :
    rowStop page slot = pageBytes ∧ rowStart page (count - 1) = rowStart page slot := by
  have hempty : ∀ row < count, row ≠ slot → rowStart page row = rowStop page row := by
    intro row hrow hne
    have hlen := before.length row hrow
    rw [hdeleted row hrow hne] at hlen
    have hle := before.le_stop row hrow
    change rowStart page row ≤ rowStop page row at hle
    change (rowStop page row - rowStart page row == 0) = true at hlen
    simp only [beq_iff_eq] at hlen
    omega
  constructor
  · have hlow : ∀ row < slot, rowStart page row = pageBytes := by
      intro row
      induction row with
      | zero => exact fun h => hempty 0 (by omega) (by omega)
      | succ row ih =>
        intro h
        rw [hempty (row + 1) (by omega) (by omega), rowStop_succ, ih (by omega)]
    unfold rowStop
    split
    · rfl
    · exact hlow (slot - 1) (by omega)
  · have hhigh : ∀ row, slot ≤ row → row < count → rowStart page row = rowStart page slot := by
      intro row hle
      induction row, hle using Nat.le_induction with
      | base => exact fun _ => rfl
      | succ row hle ih =>
        intro h
        rw [hempty (row + 1) h (by omega), rowStop_succ, ih (by omega)]
    exact hhigh (count - 1) (by omega) (by omega)

end DataPageEditor

/-- `image` is `source` released: a new tag, every slot a tombstone at the page end, and the whole
row area free. -/
structure ReleasedPage (source image : Page) (count : ℕ) : Prop where
  rowCount : DataPageDirectory.declaredRowCount image = count
  owner : RowDirectory.ownerWord image = RowDirectory.ownerWord source
  free : u16At image freeSpaceOffset = pageBytes - DataPageDirectory.directoryEnd count
  tag : image.get 0 = releasedPageTag
  word : ∀ row < count, rawOffset image row = tombstone ||| pageBytes

namespace ReleasedPage

variable {source image : Page} {count : ℕ}

/-- A released page has no row left. -/
theorem layout (h : ReleasedPage source image count) (hcount : count ≤ 256) :
    Layout image count (fun _ => pageBytes) fun _ => .deleted := by
  refine ⟨h.rowCount, hcount, fun row hrow => ?_, fun row hrow => ?_, fun row hrow => ?_,
    fun row hrow => ?_⟩
  · rw [h.word row hrow]
    rfl
  · simp only [DataPageDirectory.directoryEnd, directoryOffset, entryLen, pageBytes]
    omega
  · simp [stopOf]
  · simp [stopOf, RowSlot.validLength]

end ReleasedPage

namespace DataPageEditor

variable {owner : PageNumber}

/-- Rewriting the tag, every directory word and the free-byte count releases the page. -/
theorem released_of_writes {source looped : Page} {count newFree : ℕ}
    (before : Layout source count (rowStart source) (rowState source)) (hpos : 0 < count)
    (hnewFree : newFree = pageBytes - DataPageDirectory.directoryEnd count)
    (hloop : (List.range' 0 count).foldlM (fun image ordinal => do
      writeSlot image ordinal (← pure (tombstone ||| pageBytes)))
        (source.write 0 [releasedPageTag]) = .ok looped) :
    ReleasedPage source (looped.write freeSpaceOffset (leBytes 2 newFree)) count := by
  obtain ⟨hwords, hframe⟩ := writeSlots_ok hloop
  have hlowest := (before.directory_le (count - 1) (by omega)).trans (before.start_le (by omega))
  simp only [DataPageDirectory.directoryEnd, directoryOffset, entryLen] at *
  -- between the free-byte count and the directory nothing changes
  have hhead : ∀ i, 4 ≤ i → i < 10 →
      Block.get (looped.write freeSpaceOffset (leBytes 2 newFree)) i = source.get i := by
    intro i hlo hhi
    rw [Block.get_write_of_notMem (by simp only [freeSpaceOffset, length_leBytes]; omega),
      hframe i (by omega), Block.get_write_of_notMem (by simp; omega)]
  refine ⟨?_, ?_, ?_, ?_, fun row hrow => ?_⟩
  · rw [← before.count_eq]
    exact Block.le_congr fun i hi => hhead _ (by simp only [rowCountOffset]; omega)
      (by simp only [rowCountOffset]; omega)
  · unfold RowDirectory.ownerWord DataPageDirectory.owner
    rw [Block.slice_congr rfl fun i hi => hhead _ (by simp only [ownerOffset]; omega)
      (by simp only [ownerOffset] at hi ⊢; omega)]
  · have hself : Block.le (looped.write freeSpaceOffset (leBytes 2 newFree)) freeSpaceOffset 2 =
        leValue (leBytes 2 newFree) :=
      Block.le_write_self _ (length_leBytes 2 newFree) (by decide)
    rw [u16At, hself, leValue_leBytes_of_lt (by simp only [hnewFree, pageBytes]; omega), hnewFree]
    rfl
  · rw [Block.get_write_of_notMem (by simp [freeSpaceOffset]), hframe 0 (by omega),
      Block.get_write_of_mem (by omega) (by simp) (by decide)]
    rfl
  · obtain ⟨w, hw, hraw⟩ := hwords row (by omega) (by omega)
    have hw' : tombstone ||| pageBytes = w := pure_ok_iff.mp hw
    have hsame : rawOffset (looped.write freeSpaceOffset (leBytes 2 newFree)) row =
        rawOffset looped row := Block.le_congr fun i hi => Block.get_write_of_notMem
      (by simp only [freeSpaceOffset, length_leBytes, directoryOffset, entryLen]; omega)
    rw [hsame, hraw, ← hw']
    rfl

/-- What a removal checked, and what either of its two ways leaves behind. -/
theorem remove_ok {editor : DataPageEditor owner} {slot : UInt8} {physical : Bool}
    {deletion : Deletion} (h : editor.remove slot physical = .ok deletion) :
    slot.toNat < editor.directory.rowCount ∧
      Layout editor.source editor.directory.rowCount (rowStart editor.source)
        (rowState editor.source) ∧
      rowState editor.source slot.toNat ≠ .deleted ∧
      ((liveCount editor.source editor.directory.rowCount = 1 ∧
          ∃ image, deletion = .released image ∧
            ReleasedPage editor.source image editor.directory.rowCount) ∨
        (liveCount editor.source editor.directory.rowCount ≠ 1 ∧
          ∃ image, deletion = .retained image ∧
            Shifted editor.source image editor.directory.rowCount slot.toNat 0 .deleted)) := by
  simp only [remove, bind_ok_iff, entry_ok_iff, exists_unit, refuseIf_ok_iff, okOr_ok_iff,
    toU16_eq_some] at h
  obtain ⟨_, ⟨hslot, rfl⟩, live, hlive, hrange, packed, hpacked, newFree, ⟨hfree, rfl⟩, h⟩ := h
  obtain ⟨before, hcounted⟩ := liveRows_ok hlive
  rw [packed_ok_iff, ← editor.rowCount_eq] at hpacked
  obtain ⟨hpos, hgap, rfl⟩ := hpacked
  rw [← editor.rowCount_eq] at hslot
  rw [range_isEmpty] at hrange
  have hlowest := before.directory_le (editor.directory.rowCount - 1) (by omega)
  have hmono := before.start_antitone (i := slot.toNat) (j := editor.directory.rowCount - 1)
    (by omega) (by omega)
  have hstop : rowStart editor.source slot.toNat ≤ rowStop editor.source slot.toNat :=
    before.le_stop _ hslot
  have hlen : rowLen editor.source slot.toNat =
    rowStop editor.source slot.toNat - rowStart editor.source slot.toNat := rfl
  have hstate : rowState editor.source slot.toNat ≠ .deleted := by
    intro hdeleted
    have hlength := before.length _ hslot
    rw [hdeleted] at hlength
    change (rowLen editor.source slot.toNat == 0) = true at hlength
    exact hrange (by simpa using hlength)
  refine ⟨hslot, before, hstate, ?_⟩
  have hnewFree : (pageEntry editor.page editor.source slot).range.len =
    rowLen editor.source slot.toNat := rfl
  simp only [hgap, hnewFree] at h hfree
  split at h
  · rename_i hone
    simp only [bind_ok_iff, WriteError.ofError_ok_iff, writeAt_ok_iff, writeFree, pure_ok_iff] at h
    obtain ⟨_, ⟨-, rfl⟩, looped, hloop, _, ⟨-, rfl⟩, rfl⟩ := h
    refine .inl ⟨hcounted ▸ hone, _, rfl, released_of_writes before hpos ?_ hloop⟩
    -- the only row in use spans the row area, so its length plus the gap is all of it
    obtain ⟨htop, hbottom⟩ := whole_area_of_deleted before hslot fun row hrow hne =>
      deleted_of_liveCount_eq_one (hcounted ▸ hone) hslot hstate hrow hne
    omega
  · rename_i hmany
    simp only [bind_ok_iff, WriteError.ofError_ok_iff, writeAt_ok_iff, writeFree, pure_ok_iff] at h
    obtain ⟨moved, ⟨hmovedFit, hmoved⟩, looped, hloop, _, ⟨-, rfl⟩, rfl⟩ := h
    refine .inr ⟨hcounted ▸ hmany, _, rfl, ?_⟩
    obtain ⟨hwords, hframe⟩ := writeSlots_ok hloop
    have hstart : (pageEntry editor.page editor.source slot).range.start =
      rowStart editor.source slot.toNat := rfl
    rw [hstart] at hmoved hmovedFit
    have hslice : (editor.source.slice (rowStart editor.source (editor.directory.rowCount - 1))
        (rowStart editor.source slot.toNat)).length = rowStart editor.source slot.toNat -
          rowStart editor.source (editor.directory.rowCount - 1) := Block.length_slice _ _ _
    refine Shifted.of_writes before hslot rfl (by omega) (by omega) hfree
      (fun i hi => ?_) (fun i hi => ?_) (fun i hi => ?_) (fun row hlo hhi => ?_)
      (fun i hi => hframe i ?_)
    · rw [hmoved, Block.get_write_of_notMem (by omega)]
    · rw [hmoved, Block.get_write_of_notMem (by omega)]
    · rw [hmoved, Block.get_write_of_mem (by omega) (by omega) (by omega), Nat.sub_zero,
        Nat.add_sub_cancel_left, Block.getD_slice _ (by omega)]
    · obtain ⟨w, hw, hraw⟩ := hwords row hlo (by omega)
      obtain ⟨hword, hlt⟩ := removedWord_ok hhi hstop hw
      rw [hraw, Nat.mod_eq_of_lt hlt, hword]
    · rcases hi with hi | hi
      · exact .inl hi
      · right
        rw [Nat.add_sub_cancel' hslot.le]
        exact hi

/-- A removal deletes its slot and changes no other slot. -/
theorem remove_editRefines {editor : DataPageEditor owner} {slot : UInt8} {physical : Bool}
    {deletion : Deletion} (h : editor.remove slot physical = .ok deletion) :
    EditRefines editor deletion.intoImage slot ⟨.deleted, []⟩ editor.directory.rowCount := by
  obtain ⟨hslot, before, hstate, ⟨hone, image, rfl, hreleased⟩ | ⟨-, image, rfl, hshifted⟩⟩ :=
    remove_ok h
  · refine EditRefines.of_layout before (hreleased.layout before.count_le) hreleased.owner
      hreleased.free hslot ?_ (fun _ _ => Iff.rfl) fun row hrow hne => ?_
    · simp [stopOf, Block.slice]
    · -- the other slots were deleted already
      have hdeleted := deleted_of_liveCount_eq_one hone hslot hstate hrow hne
      have hlength := before.length row hrow
      rw [hdeleted] at hlength
      have hempty : stopOf (rowStart editor.source) row - rowStart editor.source row = 0 := by
        simpa [RowSlot.validLength] using hlength
      refine ⟨hdeleted.symm, ?_⟩
      simp [stopOf, Block.slice] at hempty ⊢
      rw [hempty]
  · refine hshifted.editRefines ?_
    simp [Block.slice]

end DataPageEditor

end Jet3
