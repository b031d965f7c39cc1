import Jet3.Library.Bits
import Jet3.Row.DataPage

/-!
# The slot map of a data page

The abstract view of a data page: each slot holds a state and row bytes.

* `slotMap` reads that view with the directory's own accessors; it is defined exactly at the
  existing slots whose length fits their state.
* `Layout` describes a page by the start and the state of every row: `Layout.rowsValid` says such
  a page is accepted again and `Layout.slotMap_eq` what it abstracts to, so an operation only has
  to describe the layout it leaves behind.
* `liveRows_ok` and `packed_ok_iff` say what the checks of an operation establish.
-/

namespace Jet3

open Outcome

/-- What one slot holds. -/
structure SlotContents where
  state : RowSlot
  bytes : List UInt8
  deriving DecidableEq, Repr

/-- The contents of a slot of a page with the given directory. -/
def slotMap (directory : RowDirectory) (page : Page) (slot : UInt8) : Option SlotContents := do
  let entry ← (directory.entry page slot).toOption
  let state ← (RowSlot.read entry).toOption
  return { state, bytes := page.slice entry.range.start entry.range.stop }

/-! ## Layouts -/

/-- The end of `row` when the rows start at `start`. -/
def stopOf (start : ℕ → ℕ) (row : ℕ) : ℕ :=
  if row = 0 then pageBytes else start (row - 1)

/-- The page holds `count` rows with the given starts and states. -/
structure Layout (page : Page) (count : ℕ) (start : ℕ → ℕ) (state : ℕ → RowSlot) : Prop where
  count_eq : DataPageDirectory.declaredRowCount page = count
  count_le : count ≤ 256
  word : ∀ row < count, rawOffset page row = start row ||| (state row).flags
  directory_le : ∀ row < count, DataPageDirectory.directoryEnd count ≤ start row
  le_stop : ∀ row < count, start row ≤ stopOf start row
  length : ∀ row < count, (state row).validLength (stopOf start row - start row) = true

/-- The state the flags and the length of `row` select. -/
def rowState (page : Page) (row : ℕ) : RowSlot :=
  RowSlot.classify (rowHidden page row) (rowOverflow page row) (rowLen page row)

/-- A state is read back from its flags and a length it allows. -/
theorem classify_flags {state : RowSlot} {length : ℕ} (h : state.validLength length = true) :
    RowSlot.classify (decide (state.flags &&& hiddenFlag ≠ 0))
      (decide (state.flags &&& overflowFlag ≠ 0)) length = state := by
  cases state <;> cases length <;>
    simp_all [RowSlot.classify, RowSlot.flags, RowSlot.validLength, hiddenFlag, overflowFlag]

/-- The flags of a state are those of the state read from its own flags. -/
theorem flags_classify (hidden overflow : Bool) (length : ℕ) :
    (RowSlot.classify hidden overflow length).flags =
      (if hidden then hiddenFlag else 0) ||| (if overflow then overflowFlag else 0) := by
  cases hidden <;> cases overflow <;> cases length <;> rfl

/-- A directory word fits two bytes. -/
theorem word_lt {offset : ℕ} (h : offset < 65536) (state : RowSlot) :
    offset ||| state.flags < 65536 :=
  Nat.or_lt_two_pow (n := 16) h (by cases state <;> decide)

/-- A word without the unknown flag is its start and its other two flags. -/
theorem word_eq {word : ℕ} (hword : word < 65536) (hknown : word &&& unknownFlag = 0) :
    word = (word &&& offsetMask) |||
      ((if decide (word &&& hiddenFlag ≠ 0) then hiddenFlag else 0) |||
        (if decide (word &&& overflowFlag ≠ 0) then overflowFlag else 0)) := by
  have hhidden : (if decide (word &&& hiddenFlag ≠ 0) then hiddenFlag else 0) =
      word &&& hiddenFlag :=
    (if_congr decide_eq_true_iff rfl rfl).trans (Bits.ite_and_two_pow word 15)
  have hoverflow : (if decide (word &&& overflowFlag ≠ 0) then overflowFlag else 0) =
      word &&& overflowFlag :=
    (if_congr decide_eq_true_iff rfl rfl).trans (Bits.ite_and_two_pow word 14)
  have hall : word &&& (2 ^ 16 - 1) = word := Bits.and_mask_of_lt hword
  have hmask : 2 ^ 16 - 1 = offsetMask ||| (hiddenFlag ||| overflowFlag) ||| unknownFlag := rfl
  rw [hhidden, hoverflow, ← Nat.and_or_distrib_left, ← Nat.and_or_distrib_left]
  rw [hmask, Nat.and_or_distrib_left, hknown, Nat.or_zero] at hall
  exact hall.symm

/-- Reading an existing slot checks its length against the state its flags select. -/
theorem read_pageEntry_ok_iff {pageNumber : PageNumber} {page : Page} {slot : UInt8}
    {state : RowSlot} :
    RowSlot.read (pageEntry pageNumber page slot) = .ok state ↔
      (rowState page slot.toNat).validLength (rowLen page slot.toNat) = true ∧
        state = rowState page slot.toNat := by
  have hread : RowSlot.read (pageEntry pageNumber page slot) = (do
      (rowState page slot.toNat).checkLength (rowLen page slot.toNat)
      return rowState page slot.toNat) := rfl
  rw [hread, eq_comm (a := state)]
  simp

/-- The slot map is defined at the existing slots whose length fits their state. -/
theorem slotMap_pageDirectory (pageNumber : PageNumber) (page : Page) (slot : UInt8) :
    slotMap (pageDirectory pageNumber page) page slot =
      if slot.toNat < DataPageDirectory.declaredRowCount page ∧
          (rowState page slot.toNat).validLength (rowLen page slot.toNat) = true then
        some ⟨rowState page slot.toNat,
          page.slice (rowStart page slot.toNat) (rowStop page slot.toNat)⟩
      else none := by
  unfold slotMap
  rcases hentry : (pageDirectory pageNumber page).entry page slot with e | entry
  · rw [if_neg]
    · rfl
    · rintro ⟨hslot, -⟩
      rw [RowDirectory.entry_ok_iff.mpr ⟨hslot, rfl⟩] at hentry
      cases hentry
  · obtain ⟨hslot, rfl⟩ := RowDirectory.entry_ok_iff.mp hentry
    rcases hread : RowSlot.read (pageEntry pageNumber page slot) with e | state
    · rw [if_neg]
      · simp [hread, Except.toOption]
      · rintro ⟨-, hlen⟩
        rw [read_pageEntry_ok_iff.mpr ⟨hlen, rfl⟩] at hread
        cases hread
    · obtain ⟨hlen, rfl⟩ := read_pageEntry_ok_iff.mp hread
      rw [if_pos ⟨hslot, hlen⟩]
      change (RowSlot.read (pageEntry pageNumber page slot)).toOption.bind _ = _
      rw [hread]
      rfl

namespace Layout

variable {page : Page} {count : ℕ} {start : ℕ → ℕ} {state : ℕ → RowSlot}

/-- Rows start on the page. -/
theorem start_le (h : Layout page count start state) {row : ℕ} (hrow : row < count) :
    start row ≤ pageBytes := by
  induction row with
  | zero => exact h.le_stop 0 hrow
  | succ row ih =>
    have hstop := h.le_stop (row + 1) hrow
    simp only [stopOf, Nat.add_one_ne_zero, if_false, Nat.add_sub_cancel] at hstop
    exact hstop.trans (ih (by omega))

/-- Later rows start lower. -/
theorem start_antitone (h : Layout page count start state) {i j : ℕ} (hij : i ≤ j)
    (hj : j < count) :
    start j ≤ start i := by
  induction j, hij using Nat.le_induction with
  | base => exact le_rfl
  | succ j hij ih =>
    have hstop := h.le_stop (j + 1) hj
    simp only [stopOf, Nat.add_one_ne_zero, if_false, Nat.add_sub_cancel] at hstop
    exact hstop.trans (ih (by omega))

/-- Offsets fit the bits of an entry. -/
theorem start_lt (h : Layout page count start state) {row : ℕ} (hrow : row < count) :
    start row < 2 ^ 13 :=
  (h.start_le hrow).trans_lt (by decide)

/-- The start of a row, read from its entry. -/
theorem rowStart_eq (h : Layout page count start state) {row : ℕ} (hrow : row < count) :
    rowStart page row = start row := by
  rw [rowStart, h.word row hrow]
  exact Bits.or_and_mask_of_lt (h.start_lt hrow) (by cases state row <;> rfl)

/-- A row ends where the one before it starts. -/
theorem rowStop_eq (h : Layout page count start state) {row : ℕ} (hrow : row < count) :
    rowStop page row = stopOf start row := by
  cases row with
  | zero => rfl
  | succ row =>
    have hstart : rowStart page row = start row := h.rowStart_eq (by omega)
    simpa [stopOf, rowStop_succ] using hstart

theorem rowLen_eq (h : Layout page count start state) {row : ℕ} (hrow : row < count) :
    rowLen page row = stopOf start row - start row := by
  rw [rowLen, h.rowStart_eq hrow, h.rowStop_eq hrow]

/-- The hidden bit of a row, read from its entry. -/
theorem rowHidden_eq (h : Layout page count start state) {row : ℕ} (hrow : row < count) :
    rowHidden page row = decide ((state row).flags &&& hiddenFlag ≠ 0) := by
  have hlt : start row < 2 ^ 15 := (h.start_lt hrow).trans (by decide)
  have hbit : (start row ||| (state row).flags) &&& hiddenFlag = (state row).flags &&& hiddenFlag :=
    Bits.or_and_two_pow_of_lt hlt
  rw [rowHidden, h.word row hrow, hbit]

/-- The overflow bit of a row, read from its entry. -/
theorem rowOverflow_eq (h : Layout page count start state) {row : ℕ} (hrow : row < count) :
    rowOverflow page row = decide ((state row).flags &&& overflowFlag ≠ 0) := by
  have hlt : start row < 2 ^ 14 := (h.start_lt hrow).trans (by decide)
  have hbit :
      (start row ||| (state row).flags) &&& overflowFlag = (state row).flags &&& overflowFlag :=
    Bits.or_and_two_pow_of_lt hlt
  rw [rowOverflow, h.word row hrow, hbit]

/-- The slot of a row, read from its entry. -/
theorem rowState_eq (h : Layout page count start state) {row : ℕ} (hrow : row < count) :
    rowState page row = state row := by
  rw [rowState, h.rowHidden_eq hrow, h.rowOverflow_eq hrow, h.rowLen_eq hrow,
    classify_flags (h.length row hrow)]

/-- A page with a layout is accepted again by the row directory of its owner. -/
theorem rowsValid (h : Layout page count start state) {owner : PageNumber}
    (howner : RowDirectory.ownerWord page = owner) : RowsValid owner page := by
  have hcount := h.count_eq
  refine ⟨howner, hcount ▸ h.count_le, fun row hrow => ?_, fun row hrow hoverflow hhidden => ?_⟩
  · rw [hcount] at hrow ⊢
    have hlen := h.length row hrow
    have hstart := h.rowStart_eq hrow
    have hstop := h.rowStop_eq hrow
    have hle := h.le_stop row hrow
    -- a visible row is never empty, so it starts before its end and inside the page
    have hvisible : rowHidden page row = false → start row < stopOf start row := by
      intro hhidden
      rw [h.rowHidden_eq hrow] at hhidden
      revert hhidden hlen
      cases state row <;> simp [RowSlot.flags, hiddenFlag, RowSlot.validLength] <;> omega
    have hpage : stopOf start row ≤ pageBytes := by
      unfold stopOf
      split
      · exact le_rfl
      · exact h.start_le (by omega)
    refine ⟨?_, hstart ▸ h.start_le hrow, ?_, ?_, fun hv => ?_, fun hv => ?_⟩
    · have hbit :
          (start row ||| (state row).flags) &&& unknownFlag = (state row).flags &&& unknownFlag :=
        Bits.or_and_two_pow_of_lt (h.start_lt hrow)
      rw [h.word row hrow, hbit]
      cases state row <;> rfl
    · rw [hstart]
      exact h.directory_le row hrow
    · rw [hstart, hstop]
      exact hle
    · have := hvisible hv
      omega
    · have := hvisible hv
      omega
  · rw [hcount] at hrow
    rw [h.rowOverflow_eq hrow] at hoverflow
    rw [h.rowHidden_eq hrow] at hhidden
    rw [h.rowLen_eq hrow, overflowPointerLen]
    have hlen := h.length row hrow
    revert hoverflow hhidden hlen
    cases state row <;> simp [RowSlot.flags, hiddenFlag, overflowFlag, RowSlot.validLength]

/-- A slot of a laid-out page holds its state and the bytes between its start and its end. -/
theorem slotMap_eq (h : Layout page count start state) (pageNumber : PageNumber) (slot : UInt8) :
    slotMap (pageDirectory pageNumber page) page slot =
      if slot.toNat < count then
        some ⟨state slot.toNat, page.slice (start slot.toNat) (stopOf start slot.toNat)⟩
      else none := by
  rw [slotMap_pageDirectory, h.count_eq]
  by_cases hslot : slot.toNat < count
  · simp [hslot, h.rowState_eq hslot, h.rowLen_eq hslot, h.length _ hslot, h.rowStart_eq hslot,
      h.rowStop_eq hslot]
  · simp [hslot]

/-- An accepted page whose slots all have a length their state allows is laid out by its own
directory words. -/
theorem of_rowsValid {owner : PageNumber} (h : RowsValid owner page)
    (hread : ∀ row < DataPageDirectory.declaredRowCount page,
      (rowState page row).validLength (rowLen page row) = true) :
    Layout page (DataPageDirectory.declaredRowCount page) (rowStart page) (rowState page) := by
  have hstop : ∀ row, stopOf (rowStart page) row = rowStop page row := fun row => rfl
  refine ⟨rfl, h.count_le, fun row hrow => ?_, fun row hrow => ?_, fun row hrow => ?_, hread⟩
  · -- the word is its start and its two flags; the third flag is excluded by validation
    have hknown := (h.entry row hrow).known
    rw [rowState, flags_classify]
    exact word_eq (u16At_lt page _) hknown
  · exact (h.entry row hrow).directory_le
  · rw [hstop]
    exact (h.entry row hrow).le_stop

end Layout

end Jet3
