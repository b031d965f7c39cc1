import Jet3.Library.Lookup
import Jet3.Write.Overlay

/-!
# Sequential plans compose

A run of sequential plans starts from the original file and an empty journal, and each step applies
a plan made against the file as the plans before it left it. `Journal` is the invariant of such a
run: the private file is the original overlaid with the journal, and the journal's before images are
the original's.

* `applyPrivate_journal` is its step: the applied plan overlays the private file, and the journal
  still is one of the original;
* `verifyPrivate_ok_iff` says which candidates a journal accepts: the overlaid original alone.
-/

namespace Jet3

open Outcome

namespace PageEdits

variable {original file : PageFile} {combined edits : PageEdits}

/-! ## Overlays -/

/-- Carries the changes of a plan into a file, one after the other. -/
def applyChanges (changes : List PageChange) (file : PageFile) : PageFile :=
  changes.foldl (fun file change => file.set change.page change.after) file

/-- Changes add no page. -/
@[simp]
theorem length_applyChanges (changes : List PageChange) (file : PageFile) :
    (applyChanges changes file).length = file.length := by
  induction changes generalizing file with
  | nil => rfl
  | cons change changes ih =>
    rw [applyChanges, List.foldl_cons, ← applyChanges, ih, List.length_set]

/-- Where no page is changed twice, a page ends with the after image of its own change. -/
theorem getElem?_applyChanges {changes : List PageChange}
    (hdistinct : (changes.map PageChange.page).Nodup) (n : ℕ) :
    (applyChanges changes file)[n]? = file[n]?.map fun raw =>
      match changes.find? fun change => change.page = n with
      | some change => change.after
      | none => raw := by
  induction changes generalizing file with
  | nil => simp [applyChanges]
  | cons change changes ih =>
    rw [List.map_cons, List.nodup_cons] at hdistinct
    rw [applyChanges, List.foldl_cons, ← applyChanges, ih hdistinct.2, List.find?_cons]
    by_cases hpage : change.page = n
    · -- the later changes are of other pages
      have hnone : (changes.find? fun change => change.page = n) = none := by
        rw [List.find?_eq_none]
        intro other hother heq
        refine hdistinct.1 (List.mem_map.mpr ⟨other, hother, ?_⟩)
        rw [hpage]
        simpa using heq
      rw [hnone, decide_eq_true hpage, hpage]
      by_cases hn : n < file.length
      · rw [List.getElem?_set_self hn, List.getElem?_eq_getElem hn]
        rfl
      · rw [List.getElem?_eq_none (by simpa using hn), List.getElem?_eq_none (by simpa using hn)]
        rfl
    · rw [decide_eq_false hpage, List.getElem?_set_ne hpage]

/-- The overlay of a plan is its changes carried into the file, and its appended pages. -/
theorem overlay_eq (hdistinct : (edits.changes.map PageChange.page).Nodup) :
    edits.overlay file = applyChanges edits.changes file ++ edits.appended := by
  rw [overlay]
  congr 1
  apply List.ext_getElem?
  intro n
  rw [List.getElem?_mapIdx, getElem?_applyChanges hdistinct]
  rfl

/-- A recorded change is found by its page. -/
theorem Against.changeOf_of_mem (h : Against original combined) {change : PageChange}
    (hchange : change ∈ combined.changes) : combined.changeOf change.page = some change :=
  Lookup.find?_eq_some_of_mem h.distinct hchange

/-- The after image of a page the plan already changed is replaced, and no other. -/
theorem current_setAfter {page n : PageNumber} {after raw : Page} {change : PageChange}
    (hchange : combined.changeOf page = some change) :
    (combined.setAfter page after).current raw n =
      if n = page then after else combined.current raw n := by
  have hmodify := @Lookup.find?_modify _ _ _ PageChange.page combined.changes
    (fun c => { c with after }) (fun _ => rfl) page n
  rw [current, changeOf, setAfter, hmodify]
  by_cases hn : n = page
  · rw [if_pos hn, if_pos hn, ← changeOf, hchange]
    rfl
  · rw [if_neg hn, if_neg hn]
    rfl

/-! ## Journals -/

/-- The journal of a run: the private file is the original overlaid with it, and it was made against
the original. -/
structure Journal (original file : PageFile) (combined : PageEdits) : Prop where
  against : Against original combined
  file_eq : file = combined.overlay original

namespace Journal

/-- Before the first plan nothing was published. -/
theorem start (original : PageFile) : Journal original original (new original.length) where
  against := against_new original
  file_eq := by
    rw [overlay_eq (by simp [new])]
    simp [new, applyChanges]

/-- Plans append to the file. -/
theorem length_file (h : Journal original file combined) :
    file.length = original.length + combined.appended.length := by
  rw [h.file_eq, length_overlay]

/-- The after image of a recorded change is the changed page of the private file. -/
theorem getElem?_of_changeOf (h : Journal original file combined) {change : PageChange}
    (hchange : combined.changeOf change.page = some change) :
    file[change.page]? = some change.after := by
  have hmem := (changeOf_eq_some hchange).1
  have hlt := (List.getElem?_eq_some_iff.mp (h.against.before change hmem)).1
  rw [h.file_eq, getElem?_overlay_of_lt hlt, h.against.before change hmem, Option.map_some, current,
    hchange]

/-- A page of the private file that no change records still is the original's. -/
theorem getElem?_of_changeOf_eq_none (h : Journal original file combined) {page : PageNumber}
    (hpage : page < original.length) (hnone : combined.changeOf page = none) :
    file[page]? = original[page]? := by
  rw [h.file_eq, getElem?_overlay_of_lt hpage]
  simp [current, hnone]

/-- The appended pages are those of the combined plan. -/
theorem getElem?_appended (h : Journal original file combined) {page : PageNumber}
    (hpage : original.length ≤ page) :
    file[page]? = combined.appended[page - original.length]? := by
  rw [h.file_eq, getElem?_overlay_of_le hpage]

/-! ## Steps of a journal -/

variable {file' : PageFile} {combined' : PageEdits}

/-- A page of the file is replaced. -/
theorem writePage_of_lt {page : PageNumber} {image : Page} (h : page < file.length) :
    file.writePage page image = file.set page image := by
  rw [PageFile.writePage, if_pos h]

/-- A page behind the last one is appended. -/
theorem writePage_length (file : PageFile) (image : Page) :
    file.writePage file.length image = file ++ [image] := by
  simp [PageFile.writePage]

/-- A change of a page the original does not have replaces an image the journal appended. -/
theorem setAppended (h : Journal original file combined) {page : ℕ} {after : Page}
    (hpage : original.length ≤ page) (hfile : page < file.length) :
    Journal original (file.set page after)
      { combined with appended := combined.appended.set (page - combined.firstAppend) after } where
  against := h.against.congr rfl rfl
  file_eq := by
    have hlen := h.length_file
    have hposition : page - original.length < combined.appended.length := by omega
    rw [h.against.first]
    apply List.ext_getElem?
    intro n
    by_cases hn : n < original.length
    · rw [List.getElem?_set_ne (by omega), h.file_eq, getElem?_overlay_of_lt hn,
        getElem?_overlay_of_lt hn]
      rfl
    · rw [not_lt] at hn
      rw [getElem?_overlay_of_le hn]
      by_cases heq : n = page
      · rw [heq, List.getElem?_set_self hfile, List.getElem?_set_self hposition]
      · have hne : page - original.length ≠ n - original.length := by omega
        rw [List.getElem?_set_ne (Ne.symm heq), h.getElem?_appended hn, List.getElem?_set_ne hne]

/-- A change of a page the journal already changed replaces its after image. -/
theorem setAfter (h : Journal original file combined) {page : ℕ} {after : Page}
    {previous : PageChange} (hprevious : combined.changeOf page = some previous) :
    Journal original (file.set page after) (combined.setAfter page after) where
  against := h.against.setAfter _ _
  file_eq := by
    have hmem := changeOf_eq_some hprevious
    have hlt : page < original.length := by
      rw [← hmem.2]
      exact (List.getElem?_eq_some_iff.mp (h.against.before previous hmem.1)).1
    have hlen := h.length_file
    have hfile : page < file.length := by omega
    apply List.ext_getElem?
    intro n
    by_cases hn : n < original.length
    · rw [getElem?_overlay_of_lt hn]
      simp only [current_setAfter hprevious]
      by_cases heq : n = page
      · rw [heq, List.getElem?_set_self hfile, List.getElem?_eq_getElem hlt]
        simp
      · rw [List.getElem?_set_ne (Ne.symm heq), h.file_eq, getElem?_overlay_of_lt hn]
        simp only [if_neg heq]
    · rw [not_lt] at hn
      rw [List.getElem?_set_ne (by omega), getElem?_overlay_of_le hn, h.getElem?_appended hn]
      rfl

/-- A page changed for the first time is recorded with its original bytes. -/
theorem addChange (h : Journal original file combined) {page : ℕ} {before after : Page}
    (hbefore : file[page]? = some before) (hpage : page < original.length)
    (hnone : combined.changeOf page = none) :
    Journal original (file.set page after)
      { combined with changes := combined.changes ++ [{ page, before, after }] } where
  against := by
    rw [h.getElem?_of_changeOf_eq_none hpage hnone] at hbefore
    exact h.against.addChange hbefore hnone
  file_eq := by
    have hlen := h.length_file
    have hfile : page < file.length := by omega
    apply List.ext_getElem?
    intro n
    by_cases hn : n < original.length
    · rw [getElem?_overlay_of_lt hn]
      simp only [current, changeOf, List.find?_append, List.find?_singleton]
      by_cases heq : n = page
      · have hnone' : combined.changes.find? (fun c => decide (c.page = page)) = none := hnone
        rw [heq, List.getElem?_set_self hfile, List.getElem?_eq_getElem hpage, hnone']
        simp
      · rw [List.getElem?_set_ne (Ne.symm heq), h.file_eq, getElem?_overlay_of_lt hn]
        simp only [current, changeOf, decide_eq_false (Ne.symm heq)]
        simp
    · rw [not_lt] at hn
      rw [List.getElem?_set_ne (by omega), getElem?_overlay_of_le hn, h.getElem?_appended hn]

/-- A change whose before image is the page of the private file keeps the journal. -/
theorem advance (h : Journal original file combined) {change : PageChange}
    (hbefore : file[change.page]? = some change.before)
    (hok : PageEdits.advance (file, combined) change = .ok (file', combined')) :
    file' = file.set change.page change.after ∧ Journal original file' combined' := by
  have hfile : change.page < file.length := (List.getElem?_eq_some_iff.mp hbefore).1
  unfold PageEdits.advance at hok
  simp only [writePage_of_lt hfile] at hok
  split at hok
  next hpage =>
    rw [h.against.first] at hpage
    simp only [bind_ok_iff, pure_ok_iff, Prod.mk.injEq] at hok
    obtain ⟨_, -, _, -, rfl, rfl⟩ := hok
    exact ⟨rfl, h.setAppended hpage hfile⟩
  next hpage =>
    rw [h.against.first, ge_iff_le, not_le] at hpage
    split at hok
    next previous hprevious =>
      simp only [bind_ok_iff, pure_ok_iff, Prod.mk.injEq] at hok
      obtain ⟨_, -, rfl, rfl⟩ := hok
      exact ⟨rfl, h.setAfter hprevious⟩
    next hnone =>
      simp only [pure_ok_iff, Prod.mk.injEq] at hok
      obtain ⟨rfl, rfl⟩ := hok
      exact ⟨rfl, h.addChange hbefore hpage hnone⟩

/-- The changes of a plan, one after the other. -/
theorem advance_all {changes : List PageChange} (h : Journal original file combined)
    (hdistinct : (changes.map PageChange.page).Nodup)
    (hbefore : ∀ change ∈ changes, file[change.page]? = some change.before)
    (hok : changes.foldlM PageEdits.advance (file, combined) = .ok (file', combined')) :
    file' = applyChanges changes file ∧ Journal original file' combined' := by
  induction changes generalizing file combined with
  | nil =>
    cases hok
    exact ⟨rfl, h⟩
  | cons change changes ih =>
    rw [List.map_cons, List.nodup_cons] at hdistinct
    simp only [List.foldlM_cons, bind_ok_iff, Prod.exists] at hok
    obtain ⟨file'', combined'', hstep, hrest⟩ := hok
    obtain ⟨rfl, hjournal⟩ := h.advance (hbefore change List.mem_cons_self) hstep
    refine ih hjournal hdistinct.2 ?_ hrest
    intro other hother
    -- the pages of a plan differ, so the change left the later ones as they were
    have hne : change.page ≠ other.page :=
      fun heq => hdistinct.1 (List.mem_map.mpr ⟨other, hother, heq.symm⟩)
    rw [List.getElem?_set_ne hne]
    exact hbefore other (List.mem_cons_of_mem change hother)

/-- An appended page follows the private file. -/
theorem advanceAppend (h : Journal original file combined) {image : Page}
    (hok : PageEdits.advanceAppend (file, combined) image = .ok (file', combined')) :
    file' = file ++ [image] ∧ Journal original file' combined' := by
  have hlen := h.length_file
  simp only [PageEdits.advanceAppend, PageEdits.append, nextAppendPage, bind_ok_iff, pure_ok_iff,
    Prod.mk.injEq, Prod.exists] at hok
  obtain ⟨combined'', page, ⟨page', hpage, hcombined, hpages⟩, hfile, hjournal⟩ := hok
  have hend : page' = file.length := by
    split at hpage
    · rw [h.against.first, ← hlen] at hpage
      exact (Except.ok.inj hpage).symm
    · cases hpage
  rw [← hfile, ← hpages, hend, writePage_length, ← hjournal, ← hcombined]
  refine ⟨rfl, { against := h.against.congr rfl rfl, file_eq := ?_ }⟩
  rw [h.file_eq, overlay, overlay, List.append_assoc]
  rfl

/-- The appended pages of a plan follow those before. -/
theorem advanceAppend_all {images : List Page} (h : Journal original file combined)
    (hok : images.foldlM PageEdits.advanceAppend (file, combined) = .ok (file', combined')) :
    file' = file ++ images ∧ Journal original file' combined' := by
  induction images generalizing file combined with
  | nil =>
    simp only [List.foldlM_nil, pure_ok_iff, Prod.mk.injEq] at hok
    obtain ⟨rfl, rfl⟩ := hok
    exact ⟨(List.append_nil _).symm, h⟩
  | cons image images ih =>
    simp only [List.foldlM_cons, bind_ok_iff, Prod.exists] at hok
    obtain ⟨file'', combined'', hstep, hrest⟩ := hok
    obtain ⟨hfile, hjournal⟩ := h.advanceAppend hstep
    obtain ⟨hfile', hend⟩ := ih hjournal hrest
    refine ⟨?_, hend⟩
    rw [hfile', hfile, List.append_assoc, List.singleton_append]

end Journal

/-! ## Verification -/

/-- Bytes are read where the source has all of them. -/
theorem readExactAt_ok_iff {source : List UInt8} {offset count : ℕ} {bytes : List UInt8} :
    readExactAt source offset count = .ok bytes ↔
      offset + count ≤ source.length ∧ bytes = (source.drop offset).take count := by
  unfold readExactAt
  split
  next h => simp only [Except.ok.injEq, h, true_and, eq_comm (a := bytes)]
  next h => simp [h]

/-- A page no change is about is expected as it is. -/
theorem expectedPage_of_forall_ne {changes : List PageChange} {page : PageNumber} {raw : Page}
    (h : ∀ change ∈ changes, change.page ≠ page) : expectedPage changes page raw = .ok raw := by
  unfold expectedPage
  induction changes with
  | nil => rfl
  | cons change changes ih =>
    rw [List.foldlM_cons, if_neg (h change List.mem_cons_self)]
    exact ih fun other hother => h other (List.mem_cons_of_mem change hother)

/-- A page of the original is expected as the journal leaves it. -/
theorem Against.expectedPage_eq (h : Against original edits) {page : PageNumber} {raw : Page}
    (hraw : original[page]? = some raw) :
    expectedPage edits.changes page raw = .ok (edits.current raw page) := by
  have hbefore := h.before
  have hdistinct := h.distinct
  rw [current, changeOf]
  generalize edits.changes = changes at hbefore hdistinct ⊢
  induction changes with
  | nil => rfl
  | cons change changes ih =>
    rw [List.map_cons, List.nodup_cons] at hdistinct
    have hrest : ∀ other ∈ changes, original[other.page]? = some other.before :=
      fun other hother => hbefore other (List.mem_cons_of_mem change hother)
    by_cases hpage : change.page = page
    · -- the page's own change; the later ones are of other pages
      have hraw' : raw = change.before := by
        rw [← hpage, hbefore change List.mem_cons_self, Option.some.injEq] at hraw
        exact hraw.symm
      have hother : ∀ other ∈ changes, other.page ≠ page := fun other hother heq =>
        hdistinct.1 (List.mem_map.mpr ⟨other, hother, heq.trans hpage.symm⟩)
      have hstep : expectedPage changes page change.after = .ok change.after :=
        expectedPage_of_forall_ne hother
      rw [expectedPage, List.foldlM_cons, if_pos hpage, refuseIf, if_neg (not_not.mpr hraw'),
        List.find?_cons, decide_eq_true hpage]
      exact hstep
    · rw [expectedPage, List.foldlM_cons, if_neg hpage, List.find?_cons, decide_eq_false hpage]
      exact ih hrest hdistinct.2

/-- A page is verified where the candidate has the planned bytes. -/
theorem Against.verifyPage_ok_iff (h : Against original edits) {candidate : List UInt8}
    {page : ℕ} {raw : Page} (hraw : original[page]? = some raw) :
    verifyPage candidate edits.changes (raw, page) = .ok () ↔
      pageBytes * page + pageBytes ≤ candidate.length ∧
        (candidate.drop (pageBytes * page)).take pageBytes =
          pageBytesOf (edits.current raw page) := by
  simp only [verifyPage, h.expectedPage_eq hraw, bind_ok_iff, WriteError.ofError_ok_iff,
    readExactAt_ok_iff, Except.ok.injEq, refuseIf_ok_iff, ne_eq, not_not]
  constructor
  · rintro ⟨_, ⟨hlen, rfl⟩, _, rfl, heq⟩
    exact ⟨hlen, heq.symm⟩
  · rintro ⟨hlen, heq⟩
    exact ⟨_, ⟨hlen, rfl⟩, _, rfl, heq.symm⟩

/-- An appended page is verified where the candidate has it. -/
theorem verifyAppended_ok_iff {candidate : List UInt8} {length ordinal : ℕ} {image : Page} :
    verifyAppended candidate length (image, ordinal) = .ok () ↔
      pageBytes * (length + ordinal) + pageBytes ≤ candidate.length ∧
        (candidate.drop (pageBytes * (length + ordinal))).take pageBytes = pageBytesOf image := by
  have hoffset : pageBytes * length + pageBytes * ordinal = pageBytes * (length + ordinal) := by
    ring
  simp only [verifyAppended, hoffset, bind_ok_iff, WriteError.ofError_ok_iff, readExactAt_ok_iff,
    refuseIf_ok_iff, ne_eq, not_not]
  constructor
  · rintro ⟨_, ⟨hlen, rfl⟩, heq⟩
    exact ⟨hlen, heq⟩
  · rintro ⟨hlen, heq⟩
    exact ⟨_, ⟨hlen, rfl⟩, heq⟩

/-- A plan whose appended pages have a 24-bit number accepts the overlaid original and no other
byte string. -/
theorem Against.verifyPrivate_ok_iff (h : Against original edits)
    (hwidth : original.length + edits.appended.length ≤ maxAppendPage) {candidate : List UInt8} :
    edits.verifyPrivate original candidate = .ok () ↔
      candidate = (edits.overlay original).bytes := by
  have hnext : edits.nextAppendPage = .ok (original.length + edits.appended.length) := by
    rw [nextAppendPage, h.first, if_pos hwidth]
  have hcount : (edits.overlay original).pageCount = original.length + edits.appended.length :=
    length_overlay original edits
  simp only [verifyPrivate, hnext, verifyChanges, bind_ok_iff, Except.ok.injEq, exists_eq_left',
    refuseIf_ok_iff, ne_eq, not_not, forM_ok_iff, exists_unit]
  constructor
  · rintro ⟨hlen, hpages, happended⟩
    apply PageFile.eq_bytes_of_take_drop
    · rw [hlen, hcount, Nat.mul_comm]
    intro n page hpage
    by_cases hn : n < original.length
    · -- a page of the original, changed or not
      rw [getElem?_overlay_of_lt hn, List.getElem?_eq_getElem hn, Option.map_some,
        Option.some.injEq] at hpage
      have hraw : original[n]? = some original[n] := List.getElem?_eq_getElem hn
      have hmem : (original[n], n) ∈ original.zipIdx := List.mk_mem_zipIdx_iff_getElem?.mpr hraw
      rw [← hpage]
      exact ((h.verifyPage_ok_iff hraw).mp (hpages _ hmem)).2
    · -- an appended page
      rw [not_lt] at hn
      rw [getElem?_overlay_of_le hn] at hpage
      have hmem : (page, n - original.length) ∈ edits.appended.zipIdx :=
        List.mk_mem_zipIdx_iff_getElem?.mpr hpage
      have hok := (verifyAppended_ok_iff.mp (happended _ hmem)).2
      rwa [Nat.add_sub_of_le hn] at hok
  · rintro rfl
    have hlen : (edits.overlay original).bytes.length =
        (original.length + edits.appended.length) * pageBytes := by
      rw [PageFile.length_bytes, hcount, Nat.mul_comm]
    refine ⟨hlen, ?_, ?_⟩
    · rintro ⟨raw, n⟩ hmem
      have hraw : original[n]? = some raw := List.mk_mem_zipIdx_iff_getElem?.mp hmem
      have hn : n < original.length := (List.getElem?_eq_some_iff.mp hraw).1
      have hpage : (edits.overlay original)[n]? = some (edits.current raw n) := by
        rw [getElem?_overlay_of_lt hn, hraw, Option.map_some]
      refine (h.verifyPage_ok_iff hraw).mpr ⟨?_, PageFile.take_drop_bytes hpage⟩
      have hle : pageBytes * (n + 1) ≤ pageBytes * (original.length + edits.appended.length) :=
        Nat.mul_le_mul_left _ (by omega)
      rw [hlen, Nat.mul_comm (_ + _)]
      exact hle
    · rintro ⟨image, n⟩ hmem
      have himage : edits.appended[n]? = some image := List.mk_mem_zipIdx_iff_getElem?.mp hmem
      have hn : n < edits.appended.length := (List.getElem?_eq_some_iff.mp himage).1
      have hpage : (edits.overlay original)[original.length + n]? = some image := by
        rw [getElem?_overlay_of_le (by omega), Nat.add_sub_cancel_left, himage]
      refine verifyAppended_ok_iff.mpr ⟨?_, PageFile.take_drop_bytes hpage⟩
      have hle : pageBytes * (original.length + n + 1) ≤
          pageBytes * (original.length + edits.appended.length) := Nat.mul_le_mul_left _ (by omega)
      rw [hlen, Nat.mul_comm (_ + _)]
      exact hle

/-! ## Runs -/

/-- A plan made against a file: one that the operations of a plan build from the empty one, every
replaced page with the bytes it has in the file. -/
inductive PlannedAgainst (file : PageFile) : PageEdits → Prop where
  | new : PlannedAgainst file (new file.length)
  | append {edits edits' : PageEdits} {image : Page} {page : PageNumber} :
    PlannedAgainst file edits → edits.append image = .ok (edits', page) →
      PlannedAgainst file edits'
  | replace {edits edits' : PageEdits} {change : PageChange} :
    PlannedAgainst file edits → file[change.page]? = some change.before →
      edits.replace change = .ok edits' → PlannedAgainst file edits'
  | setImage {edits edits' : PageEdits} {page : PageNumber} {image : Page} :
    PlannedAgainst file edits → edits.setImage file page image = .ok edits' →
      PlannedAgainst file edits'
  | mapBit {edits edits' : PageEdits} {locator : MapRowLocator} {member : PageNumber}
    {expected desired : Bool} :
    PlannedAgainst file edits → edits.mapBit file locator member expected desired = .ok edits' →
      PlannedAgainst file edits'

/-- A planned change has the page of the file as its source. -/
theorem PlannedAgainst.against (h : PlannedAgainst file edits) : Against file edits := by
  induction h with
  | new => exact against_new file
  | append _ hok ih => exact ih.append hok
  | replace _ hbefore hok ih => exact ih.replace hbefore hok
  | setImage _ hok ih => exact ih.setImage hok
  | mapBit _ hok ih => exact ih.mapBit hok

/-- A run of sequential plans from the original file: the finished plans, the private file they
leave and their journal. Every plan is made against the private file as the plans before it left
it. -/
inductive SequentialPlans (tableMaps : PageFile → Except WriteError (List MapRowLocator))
    (original : PageFile) : List PageEdits → PageFile → PageEdits → Prop where
  | start : SequentialPlans tableMaps original [] original (new original.length)
  | step {plans : List PageEdits} {file file' : PageFile}
    {plan finished combined combined' : PageEdits} :
    SequentialPlans tableMaps original plans file combined → PlannedAgainst file plan →
      plan.finishMaps tableMaps file = .ok finished →
      plan.applyPrivate tableMaps file combined = .ok (file', combined') →
      SequentialPlans tableMaps original (plans ++ [finished]) file' combined'

variable {tableMaps : PageFile → Except WriteError (List MapRowLocator)}

/-- An applied plan overlays the private file and keeps the journal; the pages it leaves have a
24-bit number. -/
theorem applyPrivate_journal {file' : PageFile} {finished combined' : PageEdits}
    (h : Journal original file combined) (hplan : Against file edits)
    (hfinished : edits.finishMaps tableMaps file = .ok finished)
    (hok : edits.applyPrivate tableMaps file combined = .ok (file', combined')) :
    file' = finished.overlay file ∧ Journal original file' combined' ∧
      file'.length ≤ maxAppendPage := by
  have hagainst := hplan.finishMaps hfinished
  simp only [applyPrivate, hfinished, bind_ok_iff, Except.ok.injEq, exists_eq_left', exists_unit,
    Prod.exists] at hok
  obtain ⟨_, -, -, next, hnext, file₁, combined₁, hchanges, hok⟩ := hok
  obtain ⟨hfile₁, hjournal₁⟩ := h.advance_all hagainst.distinct hagainst.before hchanges
  obtain ⟨hfile', hjournal'⟩ := hjournal₁.advanceAppend_all hok
  have hoverlay : file' = finished.overlay file := by
    rw [hfile', hfile₁, overlay_eq hagainst.distinct]
  refine ⟨hoverlay, hjournal', ?_⟩
  rw [hoverlay, length_overlay, ← hagainst.first]
  unfold nextAppendPage at hnext
  split at hnext
  · assumption
  · cases hnext

/-- The invariant of a run: the private file is the plans overlaid one after the other, and its
journal is one of the original. -/
theorem SequentialPlans.journal {plans : List PageEdits}
    (h : SequentialPlans tableMaps original plans file combined) :
    file = plans.foldl (fun file plan => plan.overlay file) original ∧
      Journal original file combined ∧ (plans ≠ [] → file.length ≤ maxAppendPage) := by
  induction h with
  | start => exact ⟨rfl, Journal.start original, fun h => absurd rfl h⟩
  | step _ hplan hfinished hok ih =>
    obtain ⟨hfile, hjournal, -⟩ := ih
    obtain ⟨hoverlay, hjournal', hlen⟩ :=
      applyPrivate_journal hjournal hplan.against hfinished hok
    refine ⟨?_, hjournal', fun _ => hlen⟩
    rw [List.foldl_append, ← hfile, hoverlay]
    rfl

/-- **Sequential plans compose.** The private file is every plan overlaid in turn, and the original
overlaid with the journal alone; the journal changes no page twice, its before images are the
original's and its after images the private file's, and it accepts the private file's bytes and no
other byte string. -/
theorem SequentialPlans.verified {plans : List PageEdits}
    (h : SequentialPlans tableMaps original plans file combined)
    (hwidth : plans ≠ [] ∨ original.length ≤ maxAppendPage) :
    file = plans.foldl (fun file plan => plan.overlay file) original ∧
      file = combined.overlay original ∧
      (combined.changes.map PageChange.page).Nodup ∧
      (∀ change ∈ combined.changes, original[change.page]? = some change.before ∧
        file[change.page]? = some change.after) ∧
      (∀ ordinal image, combined.appended[ordinal]? = some image →
        file[original.length + ordinal]? = some image) ∧
      ∀ candidate : List UInt8,
        combined.verifyPrivate original candidate = .ok () ↔ candidate = file.bytes := by
  obtain ⟨hfile, hjournal, hlen⟩ := h.journal
  have hlength := hjournal.length_file
  refine ⟨hfile, hjournal.file_eq, hjournal.against.distinct, ?_, ?_, ?_⟩
  · intro change hchange
    exact ⟨hjournal.against.before change hchange,
      hjournal.getElem?_of_changeOf (hjournal.against.changeOf_of_mem hchange)⟩
  · intro ordinal image himage
    rw [hjournal.getElem?_appended (by omega), Nat.add_sub_cancel_left, himage]
  · intro candidate
    have hnext : original.length + combined.appended.length ≤ maxAppendPage := by
      rcases hwidth with hplans | horiginal
      · rw [← hlength]
        exact hlen hplans
      · cases h with
        | start => exact horiginal
        | step => exact hlength ▸ hlen (by simp)
    rw [hjournal.against.verifyPrivate_ok_iff hnext, ← hjournal.file_eq]

/-- A plan that replaces the only page of the original and appends another, and a plan that replaces
both again. The journal keeps the original's page as the before image, and the latest after
images. -/
theorem SequentialPlans.verified_twoPlans :
    ∃ combined : PageEdits,
      combined.changes = [⟨0, Block.fill pageBytes 0, Block.fill pageBytes 8⟩] ∧
      combined.appended = [Block.fill pageBytes 10] ∧
      ∀ candidate : List UInt8,
        combined.verifyPrivate [Block.fill pageBytes 0] candidate = .ok () ↔
          candidate = PageFile.bytes [Block.fill pageBytes 8, Block.fill pageBytes 10] := by
  let image (byte : UInt8) : Page := Block.fill pageBytes byte
  let first : PageEdits :=
    { firstAppend := 1, changes := [⟨0, image 0, image 7⟩], appended := [image 9], maps := [] }
  let second : PageEdits :=
    { firstAppend := 2, changes := [⟨0, image 7, image 8⟩, ⟨1, image 9, image 10⟩]
      appended := [], maps := [] }
  let combined : PageEdits :=
    { firstAppend := 1, changes := [⟨0, image 0, image 8⟩], appended := [image 10], maps := [] }
  have hfirst : PlannedAgainst [image 0] first :=
    .append (@PlannedAgainst.replace _ _ { first with appended := [] } ⟨0, image 0, image 7⟩ .new
      rfl rfl) rfl
  have hsecond : PlannedAgainst [image 7, image 9] second :=
    @PlannedAgainst.replace _ _ _ ⟨1, image 9, image 10⟩
      (@PlannedAgainst.replace _ _ { second with changes := [⟨0, image 7, image 8⟩] }
        ⟨0, image 7, image 8⟩ .new rfl rfl) rfl rfl
  -- page 0 is replaced again, and so is the page the first plan has appended
  have hadvance₀ : advance ([image 7, image 9], first) ⟨0, image 7, image 8⟩ =
      .ok ([image 8, image 9], { combined with appended := [image 9] }) := by
    simp [advance, first, combined, changeOf, setAfter, PageFile.writePage, refuseIf, pure,
      Except.pure, bind, Except.bind]
  have hadvance₁ : advance ([image 8, image 9], { combined with appended := [image 9] })
      ⟨1, image 9, image 10⟩ = .ok ([image 8, image 10], combined) := by
    simp [advance, combined, PageFile.writePage, refuseIf, okOr, pure, Except.pure, bind,
      Except.bind]
  have hagain : second.applyPrivate (fun _ => .ok []) [image 7, image 9] first =
      .ok ([image 8, image 10], combined) := by
    have hchanges : second.changes.foldlM advance ([image 7, image 9], first) =
        .ok ([image 8, image 10], combined) :=
      bind_ok_iff.mpr ⟨_, hadvance₀, bind_ok_iff.mpr ⟨_, hadvance₁, rfl⟩⟩
    simp only [applyPrivate, bind_ok_iff, exists_unit]
    exact ⟨_, rfl, rfl, second, rfl, _, rfl, _, hchanges, rfl⟩
  have hrun : SequentialPlans (fun _ => .ok []) [image 0] [first, second]
      [image 8, image 10] combined :=
    .step (.step .start hfirst rfl rfl) hsecond rfl hagain
  exact ⟨combined, rfl, rfl, (hrun.verified (.inl (by simp))).2.2.2.2.2⟩

/-- Without the bound on its length an original no plan was applied to can be rejected: the journal
of a file of more than `2 ^ 24` pages has no next page. -/
theorem SequentialPlans.start_rejected :
    ¬∀ (tableMaps : PageFile → Except WriteError (List MapRowLocator)) (original : PageFile)
        (plans : List PageEdits) (file : PageFile) (combined : PageEdits),
      SequentialPlans tableMaps original plans file combined →
        combined.verifyPrivate original file.bytes = .ok () := by
  intro h
  obtain ⟨original, hlength⟩ : ∃ original : PageFile, original.length = maxAppendPage + 1 :=
    ⟨List.replicate (maxAppendPage + 1) (Block.fill pageBytes 0), List.length_replicate⟩
  have hok := h (fun _ => .ok []) original [] original _ .start
  have hnext : (new original.length).nextAppendPage =
      .error (.unsupported "appended page reference width") := by
    rw [nextAppendPage, if_neg (by simp [new, hlength])]
  rw [verifyPrivate, hnext] at hok
  cases hok

end PageEdits

end Jet3
