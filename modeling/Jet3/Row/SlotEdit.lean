import Jet3.Row.SlotMap

/-!
# Edits of one slot

What the checks of a data-page edit establish, what its loop over directory words leaves behind,
and when an edited page refines the update of one slot of the slot map.

* `liveRows_ok`, `packed_ok_iff` invert the checks;
* `writeSlots_ok` is the spec of the loop rewriting directory words;
* `EditRefines` is the refinement statement every operation proves, and
  `EditRefines.of_layout` reduces it to the layout and the row bytes of the edited page;
* `Shifted.editRefines` covers the operations that close or open a gap inside the row area.
-/

namespace Jet3

open Outcome

namespace DataPageEditor

variable {owner : PageNumber}

/-- The rows of an editor are valid. -/
theorem rowsValid (editor : DataPageEditor owner) : RowsValid owner editor.source :=
  (RowDirectory.validate_ok_iff.mp editor.valid).1

/-- The directory of an editor is that of its page. -/
theorem directory_eq (editor : DataPageEditor owner) :
    editor.directory = pageDirectory editor.page editor.source :=
  (RowDirectory.validate_ok_iff.mp editor.valid).2

theorem rowCount_eq (editor : DataPageEditor owner) :
    editor.directory.rowCount = DataPageDirectory.declaredRowCount editor.source := by
  rw [editor.directory_eq]
  rfl

/-- A page that is valid for its owner can be opened. -/
theorem openPage_ok (page : PageNumber) {source : Page} (h : RowsValid owner source) :
    ∃ editor, openPage page owner source = .ok editor ∧ editor.page = page ∧
      editor.source = source := by
  unfold openPage
  split
  · rename_i e he
    rw [RowDirectory.validate_ok_iff.mpr ⟨h, rfl⟩] at he
    cases he
  · exact ⟨_, rfl, rfl, rfl⟩

/-- The entry of a slot of the page. -/
@[simp]
theorem entry_ok_iff {editor : DataPageEditor owner} {slot : UInt8} {e : RowEntry} :
    editor.entry slot = .ok e ↔
      slot.toNat < DataPageDirectory.declaredRowCount editor.source ∧
        e = pageEntry editor.page editor.source slot := by
  rw [entry, WriteError.ofDirectory_ok_iff, editor.directory_eq, RowDirectory.entry_ok_iff]

/-- The number of slots in use among the first `count`. -/
def liveCount (page : Page) (count : ℕ) : ℕ :=
  (List.range count).countP fun row => rowState page row ≠ .deleted

theorem pageEntry_hidden (page : PageNumber) (source : Page) (slot : UInt8) :
    (pageEntry page source slot).hidden = rowHidden source slot.toNat := rfl

theorem pageEntry_overflow (page : PageNumber) (source : Page) (slot : UInt8) :
    (pageEntry page source slot).overflow = rowOverflow source slot.toNat := rfl

/-- An entry is empty when its row has length zero. -/
theorem range_isEmpty (page : PageNumber) (source : Page) (slot : UInt8) :
    (pageEntry page source slot).range.isEmpty = true ↔ rowLen source slot.toNat = 0 := by
  rw [Range.isEmpty_iff, rowLen, Nat.sub_eq_zero_iff_le]
  rfl

/-- The ordinary mode accepts the deleted slots and the visible rows, and counts the latter. -/
private theorem ordinarySlot_ok {hidden overflow : Bool} {len live live' : ℕ} {e : WriteError}
    (h : (if hidden = true ∧ overflow = true ∧ len = 0 then pure live
      else if hidden = true ∨ overflow = true ∨ len = 0 then throw e
      else pure (live + 1) : Except WriteError ℕ) = .ok live') :
    (RowSlot.classify hidden overflow len).validLength len = true ∧
      live' = live + if RowSlot.classify hidden overflow len ≠ .deleted then 1 else 0 := by
  cases hidden <;> cases overflow <;> rcases len with _ | len <;>
    simp_all [RowSlot.classify, RowSlot.validLength]

/-- A count that succeeds leaves no slot unread and counts the slots in use. -/
theorem liveRows_ok {editor : DataPageEditor owner} {physical : Bool} {unsupported : String}
    {live : ℕ} (h : editor.liveRows physical unsupported = .ok live) :
    Layout editor.source editor.directory.rowCount (rowStart editor.source)
        (rowState editor.source) ∧
      live = liveCount editor.source editor.directory.rowCount := by
  have hcount := editor.rowCount_eq
  have hle := editor.rowsValid.count_le
  suffices hrows : (∀ row ∈ List.range editor.directory.rowCount,
      (rowState editor.source row).validLength (rowLen editor.source row) = true) ∧
      live = liveCount editor.source editor.directory.rowCount by
    refine ⟨?_, hrows.2⟩
    rw [hcount]
    exact Layout.of_rowsValid editor.rowsValid fun row hrow =>
      hrows.1 row (List.mem_range.mpr (hcount ▸ hrow))
  refine foldlM_ok_induction (fun done live =>
    (∀ row ∈ done, (rowState editor.source row).validLength (rowLen editor.source row) = true) ∧
      live = done.countP fun row => rowState editor.source row ≠ .deleted) ?_ ?_ h
  · simp
  · rintro done row rest live live' hsplit ⟨hvalid, rfl⟩ hstep
    have hrow : row < editor.directory.rowCount :=
      List.mem_range.mp (hsplit ▸ List.mem_append_right _ List.mem_cons_self)
    have hnat : (UInt8.ofNat row).toNat = row := by
      rw [UInt8.toNat_ofNat']
      omega
    simp only [bind_ok_iff, entry_ok_iff, hnat] at hstep
    obtain ⟨e, ⟨-, rfl⟩, hstep⟩ := hstep
    -- both modes classify the slot the same way and add one unless it is deleted
    suffices hslot : (rowState editor.source row).validLength (rowLen editor.source row) = true ∧
        live' = (done.countP fun row => rowState editor.source row ≠ .deleted) +
          if rowState editor.source row ≠ .deleted then 1 else 0 by
      refine ⟨fun other hother => ?_, ?_⟩
      · rcases List.mem_append.mp hother with hdone | hrow
        · exact hvalid other hdone
        · rw [List.mem_singleton.mp hrow]
          exact hslot.1
      · rw [hslot.2, List.countP_append, List.countP_singleton]
        simp
    split at hstep
    · simp only [bind_ok_iff, read_pageEntry_ok_iff, hnat, pure_ok_iff] at hstep
      obtain ⟨state, ⟨hlen, rfl⟩, rfl⟩ := hstep
      refine ⟨hlen, ?_⟩
      split <;> rfl
    · simp only [range_isEmpty, pageEntry_hidden, pageEntry_overflow, hnat] at hstep
      exact ordinarySlot_ok hstep

/-- The free-byte check passes exactly on a page with a row whose gap is the stored count. -/
theorem packed_ok_iff {editor : DataPageEditor owner} {mismatch : String} {packed : Packed} :
    editor.packed mismatch = .ok packed ↔
      0 < DataPageDirectory.declaredRowCount editor.source ∧
        u16At editor.source freeSpaceOffset =
          rowStart editor.source (DataPageDirectory.declaredRowCount editor.source - 1) -
            DataPageDirectory.directoryEnd (DataPageDirectory.declaredRowCount editor.source) ∧
        packed =
          { lowest := rowStart editor.source
              (DataPageDirectory.declaredRowCount editor.source - 1)
            directoryEnd := DataPageDirectory.directoryEnd
              (DataPageDirectory.declaredRowCount editor.source)
            free := u16At editor.source freeSpaceOffset } := by
  have hle := editor.rowsValid.count_le
  have hnat : (UInt8.ofNat (DataPageDirectory.declaredRowCount editor.source - 1)).toNat =
      DataPageDirectory.declaredRowCount editor.source - 1 := by
    rw [UInt8.toNat_ofNat']
    omega
  simp only [DataPageEditor.packed, bind_ok_iff, exists_unit, refuseIf_ok_iff, entry_ok_iff,
    editor.rowCount_eq, hnat, pure_ok_iff, not_not]
  constructor
  · rintro ⟨hpos, e, ⟨-, rfl⟩, hfree, rfl⟩
    simp only [pageEntry, hnat] at hfree ⊢
    exact ⟨Nat.pos_of_ne_zero hpos, hfree, rfl⟩
  · rintro ⟨hpos, hfree, rfl⟩
    refine ⟨hpos.ne', _, ⟨by omega, rfl⟩, ?_, ?_⟩
    · simp only [pageEntry, hnat]
      exact hfree
    · simp only [pageEntry, hnat]
      rfl

end DataPageEditor

/-! ## Rewriting directory words -/

/-- A directory word is written where the directory has it. -/
theorem writeSlot_ok_iff {image image' : Page} {ordinal word : ℕ} :
    writeSlot image ordinal word = .ok image' ↔
      directoryOffset + entryLen * ordinal + 2 ≤ pageBytes ∧
        image' = image.write (directoryOffset + entryLen * ordinal) (leBytes 2 word) := by
  simp [writeSlot]

/-- The loop over the directory words of `first`, …, `first + n - 1` stores the words it computes
and changes nothing else. -/
theorem writeSlots_ok {image image' : Page} {first n : ℕ} {word : ℕ → Except WriteError ℕ}
    (h : (List.range' first n).foldlM
      (fun image ordinal => do writeSlot image ordinal (← word ordinal)) image = .ok image') :
    (∀ row, first ≤ row → row < first + n →
      ∃ w, word row = .ok w ∧ rawOffset image' row = w % 65536) ∧
    ∀ i, i < directoryOffset + entryLen * first ∨
        directoryOffset + entryLen * (first + n) ≤ i → image'.get i = image.get i := by
  -- the words so far are written, and all other bytes stay
  have hloop := foldlM_ok_induction (fun done (t : Page) =>
    (∀ row ∈ done, ∃ w, word row = .ok w ∧ rawOffset t row = w % 65536) ∧
      ∀ i, (∀ row ∈ done, i < directoryOffset + entryLen * row ∨
        directoryOffset + entryLen * row + 2 ≤ i) → t.get i = image.get i) ?_ ?_ h
  · obtain ⟨hwords, hframe⟩ := hloop
    refine ⟨fun row hlo hhi => hwords row (List.mem_range'_1.mpr ⟨hlo, hhi⟩), fun i hi => ?_⟩
    refine hframe i fun row hrow => ?_
    have hbounds := List.mem_range'_1.mp hrow
    simp only [directoryOffset, entryLen] at hi ⊢
    omega
  · simp
  · rintro done row rest t t' hsplit ⟨hwords, hframe⟩ hstep
    simp only [bind_ok_iff, writeSlot_ok_iff] at hstep
    obtain ⟨w, hw, hfit, rfl⟩ := hstep
    have hnodup : (done ++ row :: rest).Nodup := hsplit ▸ List.nodup_range'
    refine ⟨fun other hother => ?_, fun i hi => ?_⟩
    · rcases List.mem_append.mp hother with hdone | hlast
      · obtain ⟨w', hw', hraw⟩ := hwords other hdone
        have hne : other ≠ row := by
          rintro rfl
          exact (List.nodup_append.mp hnodup).2.2 _ hdone _ List.mem_cons_self rfl
        refine ⟨w', hw', hraw ▸ ?_⟩
        refine Block.le_write_of_disjoint t ?_
        simp only [directoryOffset, entryLen, length_leBytes]
        omega
      · rw [List.mem_singleton.mp hlast]
        refine ⟨w, hw, ?_⟩
        exact (Block.le_write_self t (length_leBytes 2 w) hfit).trans (leValue_leBytes 2 w)
    · rw [Block.get_write_of_notMem]
      · exact hframe i fun other hother => hi other (List.mem_append_left _ hother)
      · simpa using hi row (List.mem_append_right _ List.mem_cons_self)

/-- The flags of a rewritten word are those of the state the slot ends up in. -/
theorem rewrittenFlags_ok {pageNumber : PageNumber} {page : Page} {slot : UInt8} {addressed : Bool}
    (state : RowSlot) {flags : ℕ}
    (h : rewrittenFlags (pageEntry pageNumber page slot) addressed state.flags = .ok flags) :
    flags = (if addressed then state else rowState page slot.toNat).flags := by
  unfold rewrittenFlags at h
  split at h
  · exact (pure_ok_iff.mp h).symm.trans (by simp [*])
  · obtain ⟨read, hread, rfl⟩ := map_ok_iff.mp h
    rw [(read_pageEntry_ok_iff.mp hread).2]
    simp [*]

/-! ## Refinement of one slot -/

/-- `image` can be opened again for the same owner, is packed, has `rowCount` slots, and its slot
map is that of the edited page with `slot` rebound to `contents`. -/
def EditRefines {owner : PageNumber} (editor : DataPageEditor owner) (image : Page) (slot : UInt8)
    (contents : SlotContents) (rowCount : ℕ) : Prop :=
  ∃ reopened, DataPageEditor.openPage editor.page owner image = .ok reopened ∧
    reopened.source = image ∧ reopened.directory.rowCount = rowCount ∧
    (∀ mismatch, ∃ packed, reopened.packed mismatch = .ok packed) ∧
    slotMap reopened.directory image =
      Function.update (slotMap editor.directory editor.source) slot (some contents)

/-- An edited page refines the update of `slot` when its layout differs from the old one in that
slot only and the row bytes of the other slots are unchanged. -/
theorem EditRefines.of_layout {owner : PageNumber} {editor : DataPageEditor owner} {image : Page}
    {slot : UInt8} {contents : SlotContents} {n m : ℕ} {start start' : ℕ → ℕ}
    {state state' : ℕ → RowSlot} (before : Layout editor.source n start state)
    (after : Layout image m start' state')
    (howner : RowDirectory.ownerWord image = RowDirectory.ownerWord editor.source)
    (hfree : u16At image freeSpaceOffset = start' (m - 1) - DataPageDirectory.directoryEnd m)
    (hslot : slot.toNat < m)
    (hself : ⟨state' slot.toNat, image.slice (start' slot.toNat) (stopOf start' slot.toNat)⟩ =
      contents)
    (hcount : ∀ row, row ≠ slot.toNat → (row < m ↔ row < n))
    (hother : ∀ row < n, row ≠ slot.toNat → state' row = state row ∧
      image.slice (start' row) (stopOf start' row) =
        editor.source.slice (start row) (stopOf start row)) :
    EditRefines editor image slot contents m := by
  have hvalid : RowsValid owner image :=
    after.rowsValid (howner.trans editor.rowsValid.owner_eq)
  obtain ⟨reopened, hopen, hpage, hsource⟩ := DataPageEditor.openPage_ok editor.page hvalid
  have hdirectory : reopened.directory = pageDirectory editor.page image := by
    rw [reopened.directory_eq, hpage, hsource]
  refine ⟨reopened, hopen, hsource, ?_, fun mismatch => ?_, ?_⟩
  · rw [reopened.rowCount_eq, hsource, after.count_eq]
  · refine ⟨_, DataPageEditor.packed_ok_iff.mpr ⟨?_, ?_, rfl⟩⟩
    · rw [hsource, after.count_eq]
      omega
    · rw [hsource, after.count_eq, after.rowStart_eq (by omega), hfree]
  · funext other
    rw [hdirectory, editor.directory_eq, after.slotMap_eq]
    by_cases hsame : other = slot
    · rw [hsame, Function.update_self, if_pos hslot, hself]
    · have hne : other.toNat ≠ slot.toNat := fun h => hsame (UInt8.toNat_inj.mp h)
      rw [Function.update_of_ne hsame, before.slotMap_eq]
      by_cases hrow : other.toNat < n
      · obtain ⟨hstate, hbytes⟩ := hother _ hrow hne
        rw [if_pos ((hcount _ hne).mpr hrow), if_pos hrow, hstate, hbytes]
      · rw [if_neg fun h => hrow ((hcount _ hne).mp h), if_neg hrow]

/-- `image` is `source` with the bytes of one slot resized to `len`: the rows below it moved by
the difference, their words with them, and nothing above it changed. -/
structure Shifted (source image : Page) (count slot len : ℕ) (state : RowSlot) : Prop where
  before : Layout source count (rowStart source) (rowState source)
  slot_lt : slot < count
  room : len ≤ rowLen source slot +
    (rowStart source (count - 1) - DataPageDirectory.directoryEnd count)
  length : state.validLength len = true
  rowCount : DataPageDirectory.declaredRowCount image = count
  owner : RowDirectory.ownerWord image = RowDirectory.ownerWord source
  free : u16At image freeSpaceOffset = rowLen source slot +
    (rowStart source (count - 1) - DataPageDirectory.directoryEnd count) - len
  low : ∀ row < slot, rawOffset image row = rawOffset source row
  word : ∀ row, slot ≤ row → row < count →
    rawOffset image row = (rowStart source row + rowLen source slot - len) |||
      (if row = slot then state else rowState source row).flags
  above : ∀ i, rowStop source slot ≤ i → image.get i = source.get i
  moved : ∀ i < rowStart source slot - rowStart source (count - 1),
    image.get (rowStart source (count - 1) + rowLen source slot - len + i) =
      source.get (rowStart source (count - 1) + i)

namespace Shifted

variable {source image : Page} {count slot len : ℕ} {state : RowSlot}

/-- A page is shifted when its row area was moved first, its directory words were rewritten next
and its free-byte count last. -/
theorem of_writes {base looped : Page} {newFree : ℕ}
    (before : Layout source count (rowStart source) (rowState source)) (slot_lt : slot < count)
    (length : state.validLength len = true)
    (hfree : len ≤ rowLen source slot +
      (rowStart source (count - 1) - DataPageDirectory.directoryEnd count))
    (hnewFree : newFree = rowLen source slot +
      (rowStart source (count - 1) - DataPageDirectory.directoryEnd count) - len)
    (hlt : newFree < 65536)
    (hheader : ∀ i < DataPageDirectory.directoryEnd count, base.get i = source.get i)
    (habove : ∀ i, rowStop source slot ≤ i → base.get i = source.get i)
    (hmoved : ∀ i < rowStart source slot - rowStart source (count - 1),
      base.get (rowStart source (count - 1) + rowLen source slot - len + i) =
        source.get (rowStart source (count - 1) + i))
    (hwords : ∀ row, slot ≤ row → row < count →
      rawOffset looped row = (rowStart source row + rowLen source slot - len) |||
        (if row = slot then state else rowState source row).flags)
    (hframe : ∀ i, i < directoryOffset + entryLen * slot ∨
      DataPageDirectory.directoryEnd count ≤ i → looped.get i = base.get i) :
    Shifted source (looped.write freeSpaceOffset (leBytes 2 newFree)) count slot len state := by
  have hlowest := before.directory_le (count - 1) (by omega)
  have hmono := before.start_antitone (i := slot) (j := count - 1) (by omega) (by omega)
  have hstop : rowStart source slot ≤ rowStop source slot := before.le_stop slot slot_lt
  have hlen : rowLen source slot = rowStop source slot - rowStart source slot := rfl
  simp only [DataPageDirectory.directoryEnd, directoryOffset, entryLen] at *
  -- outside the free-byte count the final image is the looped one
  have hfinal : ∀ i, 4 ≤ i →
      Block.get (looped.write freeSpaceOffset (leBytes 2 newFree)) i = looped.get i := fun i hi =>
    Block.get_write_of_notMem (by simp only [freeSpaceOffset, length_leBytes]; omega)
  have hhead : ∀ i, 4 ≤ i → i < 10 + 2 * slot →
      Block.get (looped.write freeSpaceOffset (leBytes 2 newFree)) i = source.get i := by
    intro i hlo hhi
    rw [hfinal i hlo, hframe i (by omega), hheader i (by omega)]
  refine ⟨before, slot_lt, hfree, length, ?_, ?_, ?_, fun row hrow => ?_, fun row hlo hhi => ?_,
    fun i hi => ?_, fun i hi => ?_⟩
  · rw [← before.count_eq]
    exact Block.le_congr fun i hi => hhead _ (by simp only [rowCountOffset]; omega)
      (by simp only [rowCountOffset]; omega)
  · unfold RowDirectory.ownerWord DataPageDirectory.owner
    rw [Block.slice_congr rfl fun i hi => hhead _ (by simp only [ownerOffset]; omega)
      (by simp only [ownerOffset] at hi ⊢; omega)]
  · have hself : Block.le (looped.write freeSpaceOffset (leBytes 2 newFree)) freeSpaceOffset 2 =
        leValue (leBytes 2 newFree) :=
      Block.le_write_self _ (length_leBytes 2 newFree) (by decide)
    rw [u16At, hself, leValue_leBytes_of_lt hlt, hnewFree]
    rfl
  · exact Block.le_congr fun i hi => hhead _ (by simp only [directoryOffset, entryLen]; omega)
      (by simp only [directoryOffset, entryLen]; omega)
  · rw [← hwords row hlo hhi]
    exact Block.le_congr fun i hi => hfinal _ (by simp only [directoryOffset, entryLen]; omega)
  · rw [hfinal i (by omega), hframe i (by omega), habove i hi]
  · rw [hfinal _ (by omega), hframe _ (by omega), hmoved i hi]

/-- The row starts after the shift. -/
def starts (source : Page) (slot len : ℕ) (row : ℕ) : ℕ :=
  if row < slot then rowStart source row else rowStart source row + rowLen source slot - len

/-- Rows up to the edited one end where they did. -/
theorem stopOf_starts_of_le {row : ℕ} (hrow : row ≤ slot) :
    stopOf (starts source slot len) row = rowStop source row := by
  unfold stopOf rowStop starts
  split
  · rfl
  · rw [if_pos (by omega)]

/-- Rows behind the edited one move. -/
theorem stopOf_starts_of_gt {row : ℕ} (hrow : slot < row) :
    stopOf (starts source slot len) row =
      rowStop source row + rowLen source slot - len := by
  unfold stopOf rowStop starts
  rw [if_neg (by omega), if_neg (by omega), if_neg (by omega)]

/-- The bounds of an old row, in the form the shift needs. -/
theorem bounds (h : Shifted source image count slot len state) {row : ℕ} (hrow : row < count) :
    DataPageDirectory.directoryEnd count ≤ rowStart source (count - 1) ∧
      rowStart source (count - 1) ≤ rowStart source row ∧
      rowStart source row ≤ rowStop source row ∧
      rowLen source row = rowStop source row - rowStart source row := by
  have hpos : count - 1 < count := by omega
  exact ⟨h.before.directory_le _ hpos, h.before.start_antitone (by omega) hpos,
    h.before.le_stop row hrow, rfl⟩

/-- The layout of the page with one row changed. -/
theorem layout (h : Shifted source image count slot len state) :
    Layout image count (starts source slot len)
      fun row => if row = slot then state else rowState source row := by
  have hroom := h.room
  have hslot := h.bounds h.slot_lt
  refine ⟨h.rowCount, h.before.count_le, fun row hrow => ?_, fun row hrow => ?_,
    fun row hrow => ?_, fun row hrow => ?_⟩
  · by_cases hlow : row < slot
    · rw [h.low row hlow, h.before.word row hrow, starts, if_pos hlow, if_neg (by omega)]
    · rw [h.word row (by omega) hrow, starts, if_neg hlow]
  · have hrowBounds := h.bounds hrow
    unfold starts
    split <;> omega
  · have hrowBounds := h.bounds hrow
    rcases lt_trichotomy row slot with hlow | rfl | hhigh
    · rw [stopOf_starts_of_le hlow.le, starts, if_pos hlow]
      omega
    · rw [stopOf_starts_of_le le_rfl, starts, if_neg (lt_irrefl _)]
      omega
    · rw [stopOf_starts_of_gt hhigh, starts, if_neg (by omega)]
      omega
  · have hrowBounds := h.bounds hrow
    have hlen := h.before.length row hrow
    change (rowState source row).validLength (rowStop source row - rowStart source row) = true
      at hlen
    rcases lt_trichotomy row slot with hlow | rfl | hhigh
    · rw [stopOf_starts_of_le hlow.le, starts, if_pos hlow, if_neg (by omega)]
      exact hlen
    · rw [stopOf_starts_of_le le_rfl, starts, if_neg (lt_irrefl _), if_pos rfl]
      convert h.length using 2
      omega
    · rw [stopOf_starts_of_gt hhigh, starts, if_neg (by omega), if_neg (by omega)]
      convert hlen using 2
      omega

/-- The rows of the other slots keep their bytes. -/
theorem slice_eq (h : Shifted source image count slot len state) {row : ℕ} (hrow : row < count)
    (hne : row ≠ slot) :
    image.slice (starts source slot len row) (stopOf (starts source slot len) row) =
      source.slice (rowStart source row) (rowStop source row) := by
  have hroom := h.room
  have hslot := h.bounds h.slot_lt
  have hrowBounds := h.bounds hrow
  rcases lt_or_gt_of_ne hne with hlow | hhigh
  · rw [stopOf_starts_of_le hlow.le, starts, if_pos hlow]
    refine Block.slice_congr rfl fun i hi => h.above _ ?_
    -- the row before `slot` starts where `slot` ends
    have hstop : rowStop source slot = rowStart source (slot - 1) := by
      rw [rowStop, if_neg (by omega)]
    have hmono := h.before.start_antitone (i := row) (j := slot - 1) (by omega)
      (by have := h.slot_lt; omega)
    omega
  · rw [stopOf_starts_of_gt hhigh, starts, if_neg (by omega)]
    have hstop : rowStop source row ≤ rowStart source slot := by
      rw [rowStop, if_neg (by omega)]
      exact h.before.start_antitone (by omega) (by omega)
    refine Block.slice_congr (by omega) fun i hi => ?_
    have hmoved := h.moved (rowStart source row - rowStart source (count - 1) + i) (by omega)
    convert hmoved using 2 <;> omega

/-- A shifted page whose resized slot holds `bytes` refines the update of that slot. -/
theorem editRefines {owner : PageNumber} {editor : DataPageEditor owner} {slot : UInt8}
    {bytes : List UInt8}
    (h : Shifted editor.source image count slot.toNat bytes.length state)
    (hbytes : image.slice (rowStop editor.source slot.toNat - bytes.length)
      (rowStop editor.source slot.toNat) = bytes) :
    EditRefines editor image slot ⟨state, bytes⟩ count := by
  have hroom := h.room
  have hslot := h.bounds h.slot_lt
  refine EditRefines.of_layout h.before h.layout h.owner ?_ h.slot_lt ?_ (fun _ _ => Iff.rfl)
    fun row hrow hne => ⟨if_neg hne, h.slice_eq hrow hne⟩
  · rw [h.free, starts, if_neg (by have := h.slot_lt; omega)]
    omega
  · have hstart : starts editor.source slot.toNat bytes.length slot.toNat =
        rowStop editor.source slot.toNat - bytes.length := by
      rw [starts, if_neg (lt_irrefl _)]
      omega
    rw [stopOf_starts_of_le le_rfl, hstart, hbytes, if_pos rfl]

end Shifted

end Jet3
