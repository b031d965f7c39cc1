import Jet3.Alloc.MapBits
import Jet3.Row.UpdatePage

/-!
# Plans of page edits

A plan collects what one operation does to a file: the pages it changes, with their bytes before and
after, the pages it appends, and the allocation-map changes that are placed last.

* `replace` and `setImage` change a page, `append` adds one, `mapBit` requests a map change;
* `mapRecord` and `patchBytes` place the finished maps;
* `Against` says that a plan was made against a file: its before images are pages of that file.

Every operation of a plan keeps `Against`.
-/

namespace Jet3

open Outcome

/-- The images of a page before and after a plan. -/
structure PageChange where
  page : PageNumber
  before : Page
  after : Page

/-- A plan: the pages it changes, the pages it appends, and the map bits it wants changed. -/
structure PageEdits where
  firstAppend : ℕ
  changes : List PageChange
  appended : List Page
  maps : List PendingMap

/-- Row locators carry a 24-bit page reference. -/
def maxAppendPage : ℕ := 0x00ffffff

namespace PageEdits

/-- A plan that changes nothing in a file of this many pages. -/
def new (pageCount : ℕ) : PageEdits :=
  { firstAppend := pageCount, changes := [], appended := [], maps := [] }

/-- The number of the next appended page, where a reference can store it. -/
def nextAppendPage (edits : PageEdits) : Except WriteError PageNumber :=
  if edits.firstAppend + edits.appended.length ≤ maxAppendPage then
    .ok (edits.firstAppend + edits.appended.length)
  else .error (.unsupported "appended page reference width")

/-- Appends a page. -/
def append (edits : PageEdits) (image : Page) : Except WriteError (PageEdits × PageNumber) := do
  let page ← edits.nextAppendPage
  return ({ edits with appended := edits.appended ++ [image] }, page)

/-- The recorded change of `page`. -/
def changeOf (edits : PageEdits) (page : PageNumber) : Option PageChange :=
  edits.changes.find? fun change => change.page = page

/-- Gives the recorded change of `page` a new after image. -/
def setAfter (edits : PageEdits) (page : PageNumber) (after : Page) : PageEdits :=
  { edits with
    changes := edits.changes.modify (edits.changes.findIdx fun change => change.page = page)
      fun change => { change with after } }

/-- Carries one byte of a later edit of a page into its recorded after image. -/
def mergeByte (before after existing : Page) (offset : ℕ) : Except WriteError Page := do
  if before.get offset ≠ after.get offset then
    refuseIf (existing.get offset ≠ before.get offset ∧ existing.get offset ≠ after.get offset)
      (.mismatch "overlapping page edits")
    WriteError.ofError (writeAt existing offset [after.get offset])
  else return existing

/-- Merges two changes of one page that touch different bytes. -/
def mergePage (before after existing : Page) : Except WriteError Page :=
  (List.range pageBytes).foldlM (mergeByte before after) existing

/-- Adds a change of a page, merged with an earlier one. -/
def replace (edits : PageEdits) (change : PageChange) : Except WriteError PageEdits :=
  match edits.changeOf change.page with
  | some existing => do
    refuseIf (existing.before ≠ change.before) (.mismatch "inconsistent source page")
    let after ← mergePage change.before change.after existing.after
    return edits.setAfter change.page after
  | none => do
    refuseIf (change.page ≥ edits.firstAppend) (.mismatch "source page outside original")
    return { edits with changes := edits.changes ++ [change] }

/-- The appended page `page`, by its position. -/
def appendOrdinal (edits : PageEdits) (page : PageNumber) (message : String) :
    Except WriteError ℕ := do
  let ordinal := page - edits.firstAppend
  refuseIf (¬ordinal < edits.appended.length) (.mismatch message)
  return ordinal

/-- Changes a page of the file, or one that the plan appended. -/
def setImage (edits : PageEdits) (file : PageFile) (page : PageNumber) (image : Page) :
    Except WriteError PageEdits := do
  if page ≥ edits.firstAppend then
    let ordinal ← edits.appendOrdinal page "unplanned append"
    return { edits with appended := edits.appended.set ordinal image }
  else
    let before ← WriteError.ofError (file.readRawPage page)
    edits.replace { page, before, after := image }

/-- The position of the pending map at `locator`, loaded from `file` when it is not there yet. -/
def findMap (edits : PageEdits) (file : PageFile) (locator : MapRowLocator) :
    Except WriteError (List PendingMap × ℕ) :=
  match edits.maps.findIdx? fun map => map.bits.locator = locator with
  | some position => .ok (edits.maps, position)
  | none => do
    let bits ← MapBits.load file locator
    forM edits.maps fun previous =>
      refuseIf (bits.overlaps previous.bits = true) (.mismatch "aliased mutation allocation maps")
    return (edits.maps ++ [.new bits], edits.maps.length)

/-- Delays map storage growth until row, payload and index placements are fixed. -/
def mapBit (edits : PageEdits) (file : PageFile) (locator : MapRowLocator) (member : PageNumber)
    (expected desired : Bool) : Except WriteError PageEdits := do
  let found ← edits.findMap file locator
  let map ← okOr found.1[found.2]? (.mismatch "allocation map membership")
  let map ← map.change member expected desired edits.firstAppend
  return { edits with maps := found.1.set found.2 map }

/-- The bytes of `page` as the plan leaves them. -/
def current (edits : PageEdits) (before : Page) (page : PageNumber) : Page :=
  match edits.changeOf page with
  | some change => change.after
  | none => before

/-- The page of a map record with the record `desired` in place of `expected`. -/
def rewriteRecord (current : Page) (locator : MapRowLocator) (expected desired : List UInt8) :
    Except WriteError Page := do
  let page : ClassifiedPage :=
    { number := locator.page, kind := classifyPage locator.page current, raw := current }
  let record ← WriteError.ofUsageMap (locateUsageMap page locator)
  refuseIf (record.raw ≠ expected) (.mismatch "allocation record changed during staging")
  if expected.length = desired.length then
    WriteError.ofError (writeAt current record.range.start desired)
  else
    let editor ← DataPageEditor.openPage locator.page (u32At current ownerOffset) current
    let image ← editor.replace locator.row desired none
    okOr image (.unsupported "replacement exceeds contiguous page space")

/-- Rewrites a map row that is as expected. -/
def mapRecord (edits : PageEdits) (file : PageFile) (locator : MapRowLocator)
    (expected desired : List UInt8) : Except WriteError PageEdits := do
  let before ← WriteError.ofError (file.readRawPage locator.page)
  let image ← rewriteRecord (edits.current before locator.page) locator expected desired
  if (edits.changeOf locator.page).isSome then return edits.setAfter locator.page image
  else edits.replace { page := locator.page, before, after := image }

/-- An allocation patch may not overwrite a byte the content edit of the page changed. -/
def checkPatch (change : PageChange) (offset : ℕ) (bytes : List UInt8) :
    Except WriteError Unit := do
  refuseIf (¬offset + bytes.length ≤ pageBytes) (.mismatch "map patch bounds")
  forM bytes.zipIdx fun patch =>
    refuseIf (change.after.get (offset + patch.2) ≠ change.before.get (offset + patch.2) ∧
        change.after.get (offset + patch.2) ≠ patch.1)
      (.mismatch "allocation patch overlaps content edit")

/-- Writes bytes into a page of the plan. -/
def patchBytes (edits : PageEdits) (file : PageFile) (page : PageNumber) (offset : ℕ)
    (bytes : List UInt8) : Except WriteError PageEdits := do
  if page ≥ edits.firstAppend then
    let ordinal ← edits.appendOrdinal page "bitmap append page"
    let image ← okOr edits.appended[ordinal]? (.mismatch "bitmap append page")
    let image ← WriteError.ofError (writeAt image offset bytes)
    return { edits with appended := edits.appended.set ordinal image }
  else
    match edits.changeOf page with
    | some change =>
      checkPatch change offset bytes
      let after ← WriteError.ofError (writeAt change.after offset bytes)
      return edits.setAfter page after
    | none =>
      let before ← WriteError.ofError (file.readRawPage page)
      let after ← WriteError.ofError (writeAt before offset bytes)
      edits.replace { page, before, after }

/-! ## Plans against a file -/

/-- The plan was made against `file`: it appends at its end, and every change it records is of one
page of the file, with the bytes the page has there. -/
structure Against (file : PageFile) (edits : PageEdits) : Prop where
  first : edits.firstAppend = file.length
  distinct : (edits.changes.map PageChange.page).Nodup
  before : ∀ change ∈ edits.changes, file[change.page]? = some change.before

/-- A plan of no changes is one against any file. -/
theorem against_new (file : PageFile) : Against file (new file.length) where
  first := rfl
  distinct := List.nodup_nil
  before := by simp [new]

/-- A recorded change is one of the changes, and is of its page. -/
theorem changeOf_eq_some {edits : PageEdits} {page : PageNumber} {change : PageChange}
    (h : edits.changeOf page = some change) : change ∈ edits.changes ∧ change.page = page := by
  refine ⟨List.mem_of_find?_eq_some h, ?_⟩
  simpa using List.find?_some h

/-- A page without a change. -/
theorem changeOf_eq_none {edits : PageEdits} {page : PageNumber} :
    edits.changeOf page = none ↔ ∀ change ∈ edits.changes, change.page ≠ page := by
  simp [changeOf]

/-- A new after image leaves the page and the before image of every change. -/
theorem mem_setAfter {edits : PageEdits} {page : PageNumber} {after : Page} {change : PageChange}
    (h : change ∈ (edits.setAfter page after).changes) :
    ∃ old ∈ edits.changes, change.page = old.page ∧ change.before = old.before := by
  rw [setAfter, List.mem_iff_getElem?] at h
  obtain ⟨i, hi⟩ := h
  rw [List.getElem?_modify] at hi
  obtain ⟨old, hold, rfl⟩ := Option.map_eq_some_iff.mp hi
  refine ⟨old, List.mem_of_getElem? hold, ?_⟩
  split <;> simp

/-- A change is replaced in its place. -/
@[simp]
theorem map_page_setAfter (edits : PageEdits) (page : PageNumber) (after : Page) :
    (edits.setAfter page after).changes.map PageChange.page =
      edits.changes.map PageChange.page := by
  apply List.ext_getElem?
  intro i
  simp only [setAfter, List.getElem?_map, List.getElem?_modify, Option.map_eq_map, Option.map_map]
  congr 1
  funext change
  simp only [Function.comp_apply]
  split <;> rfl

namespace Against

variable {file : PageFile} {edits edits' : PageEdits}

/-- A replaced change has the page of the file as its source. -/
theorem setAfter (h : Against file edits) (page : PageNumber) (after : Page) :
    Against file (edits.setAfter page after) where
  first := h.first
  distinct := by
    rw [map_page_setAfter]
    exact h.distinct
  before := by
    intro change hchange
    obtain ⟨old, hold, hpage, hbefore⟩ := mem_setAfter hchange
    rw [hpage, hbefore]
    exact h.before old hold

/-- Only the changes of a plan say what it was made against. -/
theorem congr (h : Against file edits) (hfirst : edits'.firstAppend = edits.firstAppend)
    (hchanges : edits'.changes = edits.changes) : Against file edits' where
  first := hfirst.trans h.first
  distinct := hchanges ▸ h.distinct
  before := hchanges ▸ h.before

/-- Appended pages are no changes. -/
theorem append {image : Page} {page : PageNumber} (h : Against file edits)
    (hok : edits.append image = .ok (edits', page)) : Against file edits' := by
  simp only [PageEdits.append, bind_ok_iff, pure_ok_iff, Prod.mk.injEq] at hok
  obtain ⟨_, -, rfl, -⟩ := hok
  exact h.congr rfl rfl

/-- Recording a page for the first time, with the bytes it has in the file. -/
theorem addChange {change : PageChange} (h : Against file edits)
    (hbefore : file[change.page]? = some change.before)
    (hnone : edits.changeOf change.page = none) :
    Against file { edits with changes := edits.changes ++ [change] } where
  first := h.first
  distinct := by
    rw [List.map_append, List.nodup_append]
    refine ⟨h.distinct, List.pairwise_singleton _ _, ?_⟩
    intro page hpage other hother
    obtain ⟨old, hold, rfl⟩ := List.mem_map.mp hpage
    rw [List.map_singleton, List.mem_singleton] at hother
    rw [hother]
    exact changeOf_eq_none.mp hnone old hold
  before := by
    intro other hother
    rcases List.mem_append.mp hother with hold | hnew
    · exact h.before other hold
    · rw [List.mem_singleton.mp hnew]
      exact hbefore

/-- Replacing a page of the file keeps the plan against the file. -/
theorem replace {change : PageChange} (h : Against file edits)
    (hbefore : file[change.page]? = some change.before)
    (hok : edits.replace change = .ok edits') : Against file edits' := by
  unfold PageEdits.replace at hok
  split at hok
  · simp only [bind_ok_iff, pure_ok_iff] at hok
    obtain ⟨_, -, after, -, rfl⟩ := hok
    exact h.setAfter _ after
  next hnone =>
    simp only [bind_ok_iff, exists_unit, refuseIf_ok_iff, pure_ok_iff] at hok
    obtain ⟨-, rfl⟩ := hok
    exact h.addChange hbefore hnone

/-- A new image is a change against the file. -/
theorem setImage {page : PageNumber} {image : Page} (h : Against file edits)
    (hok : edits.setImage file page image = .ok edits') : Against file edits' := by
  unfold PageEdits.setImage at hok
  split at hok
  · simp only [bind_ok_iff, pure_ok_iff] at hok
    obtain ⟨_, -, rfl⟩ := hok
    exact h.congr rfl rfl
  · simp only [bind_ok_iff, WriteError.ofError_ok_iff, PageFile.readRawPage_ok_iff] at hok
    obtain ⟨before, hbefore, hreplace⟩ := hok
    exact h.replace hbefore hreplace

/-- Requested bits are no changes. -/
theorem mapBit {locator : MapRowLocator} {member : PageNumber} {expected desired : Bool}
    (h : Against file edits) (hok : edits.mapBit file locator member expected desired =
      .ok edits') :
    Against file edits' := by
  simp only [PageEdits.mapBit, bind_ok_iff, pure_ok_iff] at hok
  obtain ⟨_, -, _, -, _, -, rfl⟩ := hok
  exact h.congr rfl rfl

/-- A rewritten row is a change against the file. -/
theorem mapRecord {locator : MapRowLocator} {expected desired : List UInt8}
    (h : Against file edits) (hok : edits.mapRecord file locator expected desired = .ok edits') :
    Against file edits' := by
  simp only [PageEdits.mapRecord, bind_ok_iff, WriteError.ofError_ok_iff,
    PageFile.readRawPage_ok_iff] at hok
  obtain ⟨before, hbefore, image, -, hok⟩ := hok
  split at hok
  · rw [← pure_ok_iff.mp hok]
    exact h.setAfter _ image
  · exact h.replace hbefore hok

/-- Patched bytes are a change against the file. -/
theorem patchBytes {page : PageNumber} {offset : ℕ} {bytes : List UInt8}
    (h : Against file edits) (hok : edits.patchBytes file page offset bytes = .ok edits') :
    Against file edits' := by
  unfold PageEdits.patchBytes at hok
  split at hok
  · simp only [bind_ok_iff, pure_ok_iff] at hok
    obtain ⟨_, -, _, -, _, -, rfl⟩ := hok
    exact h.congr rfl rfl
  · split at hok
    · simp only [bind_ok_iff, pure_ok_iff] at hok
      obtain ⟨_, -, after, -, rfl⟩ := hok
      exact h.setAfter _ after
    · simp only [bind_ok_iff, WriteError.ofError_ok_iff, PageFile.readRawPage_ok_iff] at hok
      obtain ⟨before, hbefore, _, -, hreplace⟩ := hok
      exact h.replace hbefore hreplace

end Against

end PageEdits

end Jet3
