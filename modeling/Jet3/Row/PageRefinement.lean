import Jet3.Row.InsertPage
import Jet3.Row.UpdatePage
import Jet3.Row.DeletePage

/-!
# Data-page editing refines a slot map

The three operations of a `DataPageEditor` against their abstract meaning on a slot map.

* `dataPageEditor_refines` is the refinement of one operation: the page it returns is accepted
  again, is packed again, and its slot map differs in the addressed slot only;
* `runEdits_refines` lifts it to every sequence of operations, each on the page the one before it
  returned.
-/

namespace Jet3

open Outcome

variable {owner : PageNumber}

/-- A slot is the last one in use: every other slot is deleted. -/
def LastLive (editor : DataPageEditor owner) (slot : UInt8) : Prop :=
  ∀ other contents, other ≠ slot →
    slotMap editor.directory editor.source other = some contents → contents.state = .deleted

/-- The slots of a laid-out page are the slots of its slot map. -/
theorem lastLive_iff {editor : DataPageEditor owner} {slot : UInt8}
    (before : Layout editor.source editor.directory.rowCount (rowStart editor.source)
      (rowState editor.source))
    (hslot : slot.toNat < editor.directory.rowCount)
    (hstate : rowState editor.source slot.toNat ≠ .deleted) :
    LastLive editor slot ↔
      DataPageEditor.liveCount editor.source editor.directory.rowCount = 1 := by
  constructor
  · intro hlast
    have hother : ∀ row < editor.directory.rowCount,
        rowState editor.source row ≠ .deleted ↔ row = slot.toNat := by
      intro row hrow
      refine ⟨fun hlive => ?_, fun h => h ▸ hstate⟩
      by_contra hne
      have hle := before.count_le
      have hnat : (UInt8.ofNat row).toNat = row := by
        rw [UInt8.toNat_ofNat']
        omega
      refine hlive (hlast (UInt8.ofNat row) ⟨rowState editor.source row,
        editor.source.slice (rowStart editor.source row) (stopOf (rowStart editor.source) row)⟩
        (fun h => hne (h ▸ hnat.symm)) ?_)
      rw [editor.directory_eq, before.slotMap_eq, hnat, if_pos hrow]
    have hcount : (List.range editor.directory.rowCount).countP
        (fun row => rowState editor.source row ≠ .deleted) =
          (List.range editor.directory.rowCount).countP (fun row => row = slot.toNat) :=
      List.countP_congr fun row hrow => by simpa using hother row (List.mem_range.mp hrow)
    rw [DataPageEditor.liveCount, hcount]
    have hnodup : (List.range editor.directory.rowCount).Nodup := List.nodup_range
    simpa [List.count, beq_eq_decide, hslot] using hnodup.count (a := slot.toNat)
  · intro hone other contents hne hcontents
    rw [editor.directory_eq, before.slotMap_eq] at hcontents
    split at hcontents
    · rename_i hrow
      rw [← Option.some_inj.mp hcontents]
      exact DataPageEditor.deleted_of_liveCount_eq_one hone hslot hstate hrow
        fun h => hne (UInt8.toNat_inj.mp h)
    · cases hcontents

/-- Data-page editing refines a slot map. Whenever an operation returns a page, that page opens
again for the same owner, is packed, and abstracts to the old slot map with the addressed slot
changed: an append adds slot `rowCount`, a replacement rebinds its slot, a removal leaves a
zero-length deleted slot. Exactly when the removed slot was the last one in use, the page is
released: every word is a tombstone at the page end and the tag is `0x09`. -/
theorem dataPageEditor_refines (editor : DataPageEditor owner) :
    (∀ row physical image slot, editor.append row physical = .ok (some (image, slot)) →
      slot.toNat = editor.directory.rowCount ∧
      EditRefines editor image slot ⟨physical.getD .ordinary, row⟩
        (editor.directory.rowCount + 1)) ∧
    (∀ slot encoded physical image, editor.replace slot encoded physical = .ok (some image) →
      EditRefines editor image slot ⟨physical.getD .ordinary, encoded⟩
        editor.directory.rowCount) ∧
    ∀ slot physical deletion, editor.remove slot physical = .ok deletion →
      EditRefines editor deletion.intoImage slot ⟨.deleted, []⟩ editor.directory.rowCount ∧
      ((∃ image, deletion = .released image) ↔ LastLive editor slot) ∧
      ∀ image, deletion = .released image → image.get 0 = releasedPageTag ∧
        ∀ row < editor.directory.rowCount, rawOffset image row = tombstone ||| pageBytes := by
  refine ⟨fun row physical image slot h => DataPageEditor.append_editRefines h,
    fun slot encoded physical image h => DataPageEditor.replace_editRefines h,
    fun slot physical deletion h => ⟨DataPageEditor.remove_editRefines h, ?_, ?_⟩⟩
  · obtain ⟨hslot, before, hstate, hways⟩ := DataPageEditor.remove_ok h
    rw [lastLive_iff before hslot hstate]
    rcases hways with ⟨hone, image, rfl, -⟩ | ⟨hmany, image, rfl, -⟩
    · simp [hone]
    · simp [hmany]
  · rintro image rfl
    obtain ⟨-, -, -, ⟨-, _, heq, hreleased⟩ | ⟨-, _, heq, -⟩⟩ := DataPageEditor.remove_ok h
    · cases heq
      exact ⟨hreleased.tag, hreleased.word⟩
    · cases heq

/-- A packed page of table 20 holding a one-byte row and a two-byte row. -/
def twoRowPage : Page :=
  (((((Block.fill pageBytes 1).write freeSpaceOffset (leBytes 2 2031)).write ownerOffset
    (leBytes 4 20)).write rowCountOffset (leBytes 2 2)).write directoryOffset
    (leBytes 2 2047)).write (directoryOffset + entryLen) (leBytes 2 2045)

/-- The editor of a page with two rows. -/
def twoRowEditor : DataPageEditor 20 where
  page := 21
  source := twoRowPage
  directory := pageDirectory 21 twoRowPage
  valid := rfl

/-- The refinement at a page that takes one more row, a longer first row and a removal. -/
theorem dataPageEditor_refines_twoRowPage :
    (∃ image slot, EditRefines twoRowEditor image slot ⟨.ordinary, [7, 8, 9]⟩ 3) ∧
      (∃ image, EditRefines twoRowEditor image 0 ⟨.ordinary, [7, 8, 9]⟩ 2) ∧
      ∃ image, EditRefines twoRowEditor image 1 ⟨.deleted, []⟩ 2 := by
  obtain ⟨happend, hreplace, hremove⟩ := dataPageEditor_refines twoRowEditor
  obtain ⟨⟨image, slot⟩, happended⟩ := exists_ok_some (x := twoRowEditor.append [7, 8, 9] none)
    (by decide +kernel)
  obtain ⟨replaced, hreplaced⟩ := exists_ok_some (x := twoRowEditor.replace 0 [7, 8, 9] none)
    (by decide +kernel)
  obtain ⟨removed, hremoved⟩ := exists_ok (x := twoRowEditor.remove 1 false) (by decide +kernel)
  exact ⟨⟨image, slot, (happend _ _ _ _ happended).2⟩, ⟨replaced, hreplace _ _ _ _ hreplaced⟩,
    ⟨_, (hremove _ _ _ hremoved).1⟩⟩

/-! ## Sequences of edits -/

/-- One edit of a data page. -/
inductive PageEdit where
  | append (row : List UInt8) (physical : Option RowSlot)
  | replace (slot : UInt8) (encoded : List UInt8) (physical : Option RowSlot)
  | remove (slot : UInt8) (physical : Bool)

/-- The abstract page: its number of slots and what they hold. -/
structure SlotTable where
  rowCount : ℕ
  slots : UInt8 → Option SlotContents

/-- What an edit means. -/
def PageEdit.apply (table : SlotTable) : PageEdit → SlotTable
  | .append row physical =>
    { rowCount := table.rowCount + 1
      slots := Function.update table.slots (UInt8.ofNat table.rowCount)
        (some ⟨physical.getD .ordinary, row⟩) }
  | .replace slot encoded physical =>
    { table with
      slots := Function.update table.slots slot (some ⟨physical.getD .ordinary, encoded⟩) }
  | .remove slot _ =>
    { table with slots := Function.update table.slots slot (some ⟨.deleted, []⟩) }

/-- The slot table an editor abstracts to. -/
def slotTable (editor : DataPageEditor owner) : SlotTable :=
  { rowCount := editor.directory.rowCount, slots := slotMap editor.directory editor.source }

/-- The page an edit returns; nothing when the edit does not fit. -/
def PageEdit.image (editor : DataPageEditor owner) : PageEdit → Except WriteError (Option Page)
  | .append row physical => (·.map Prod.fst) <$> editor.append row physical
  | .replace slot encoded physical => editor.replace slot encoded physical
  | .remove slot physical => (some ·.intoImage) <$> editor.remove slot physical

/-- Performs an edit and opens the page it returns. -/
def PageEdit.run (editor : DataPageEditor owner) (edit : PageEdit) :
    Except WriteError (Option (DataPageEditor owner)) := do
  match ← edit.image editor with
  | none => return none
  | some image => some <$> DataPageEditor.openPage editor.page owner image

/-- A refined slot is a refined table. -/
theorem EditRefines.slotTable_eq {editor next : DataPageEditor owner} {image : Page}
    {slot : UInt8} {contents : SlotContents} {rowCount : ℕ}
    (h : EditRefines editor image slot contents rowCount)
    (hopen : DataPageEditor.openPage editor.page owner image = .ok next) :
    slotTable next = { rowCount
                       slots := Function.update (slotTable editor).slots slot
                         (some contents) } := by
  obtain ⟨reopened, hreopened, hsource, hcount, -, hmap⟩ := h
  cases hreopened.symm.trans hopen
  simp only [slotTable, hcount, hsource, hmap]

/-- One edit refines its abstract meaning. -/
theorem PageEdit.run_refines {editor next : DataPageEditor owner} {edit : PageEdit}
    (h : edit.run editor = .ok (some next)) :
    slotTable next = edit.apply (slotTable editor) := by
  simp only [PageEdit.run, bind_ok_iff] at h
  obtain ⟨image, himage, h⟩ := h
  rcases image with _ | image
  · simp at h
  obtain ⟨_, hopen, heq⟩ := map_ok_iff.mp h
  cases heq
  cases edit with
  | append row physical =>
    obtain ⟨result, hresult, hsome⟩ := map_ok_iff.mp himage
    obtain ⟨⟨_, slot⟩, rfl, rfl⟩ := Option.map_eq_some_iff.mp hsome
    obtain ⟨hslot, hrefines⟩ := DataPageEditor.append_editRefines hresult
    have hnumber : UInt8.ofNat editor.directory.rowCount = slot := by
      rw [← hslot, UInt8.ofNat_toNat]
    rw [hrefines.slotTable_eq hopen, PageEdit.apply, ← hnumber]
    rfl
  | replace slot encoded physical =>
    exact (DataPageEditor.replace_editRefines himage).slotTable_eq hopen
  | remove slot physical =>
    obtain ⟨deletion, hdeletion, heq⟩ := map_ok_iff.mp himage
    cases heq
    exact (DataPageEditor.remove_editRefines hdeletion).slotTable_eq hopen

/-- Performs edits one after another; nothing when one of them does not fit. -/
def runEdits (editor : DataPageEditor owner) :
    List PageEdit → Except WriteError (Option (DataPageEditor owner))
  | [] => return some editor
  | edit :: rest => do
    match ← edit.run editor with
    | none => return none
    | some next => runEdits next rest

/-- Every sequence of edits that fits refines the sequence of their meanings. -/
theorem runEdits_refines {edits : List PageEdit} {editor last : DataPageEditor owner}
    (h : runEdits editor edits = .ok (some last)) :
    slotTable last = edits.foldl (fun table edit => edit.apply table) (slotTable editor) := by
  induction edits generalizing editor with
  | nil =>
    simp only [runEdits, pure_ok_iff, Option.some.injEq] at h
    rw [h, List.foldl_nil]
  | cons edit rest ih =>
    simp only [runEdits, bind_ok_iff] at h
    obtain ⟨next, hstep, hrest⟩ := h
    rcases next with _ | next
    · simp at hrest
    rw [List.foldl_cons, ih hrest, PageEdit.run_refines hstep]

end Jet3
