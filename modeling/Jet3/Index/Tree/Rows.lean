import Jet3.Index.Tree.Page
import Jet3.Library.Search

/-!
# Row references of leaf entries

The row a leaf entry names is looked up in the directory of its data page. The row count of a page
is kept, sorted by page, so that each page is read once however the entries are mixed.

* `RowReferenceValidator.validate` checks one locator;
* `validate_ok_iff` says that the kept counts change nothing: a locator is accepted exactly when its
  page has that row.
-/

namespace Jet3

open Outcome

/-- The data pages seen so far, with their row counts. -/
structure RowReferenceValidator where
  validated : List (PageNumber × ℕ)
  deriving DecidableEq, Repr

namespace RowReferenceValidator

/-- Reads the row count of a data page of the table. -/
def readRowCount (file : PageFile) (tableRoot page : PageNumber) : Except IndexTreeError ℕ := do
  let classified ← (file.readClassifiedPage page).mapError .page
  refuseIf (classified.kind ≠ .data) (.unexpectedRowPageKind page classified.kind)
  let directory ← (RowDirectory.validate page tableRoot classified.raw).mapError
    (.rowDirectory page)
  return directory.rowCount

/-- The row count of a page, from those kept or from the page. -/
def rowCount (rows : RowReferenceValidator) (file : PageFile) (tableRoot page : PageNumber) :
    Except IndexTreeError (RowReferenceValidator × ℕ) :=
  match Search.binarySearchBy (fun entry => compare entry.1 page) rows.validated with
  | .ok position => .ok (rows, (rows.validated.getD position (page, 0)).2)
  | .error position => do
    let count ← readRowCount file tableRoot page
    return ({ validated := rows.validated.insertIdx position (page, count) }, count)

/-- An entry refers to a row of the table. -/
def validate (rows : RowReferenceValidator) (file : PageFile) (tableRoot : PageNumber)
    (locator : RowLocator) : Except IndexTreeError RowReferenceValidator := do
  let (rows, count) ← rows.rowCount file tableRoot locator.page
  refuseIf (locator.slot.toNat ≥ count)
    (.rowDirectory locator.page (.missingRow locator.slot count))
  return rows

/-! ## Kept counts -/

/-- A data page of the table in the file that has the row. -/
def Listed (file : PageFile) (tableRoot : PageNumber) (locator : RowLocator) : Prop :=
  ∃ raw, file[locator.page]? = some raw ∧ classifyPage locator.page raw = .data ∧
    RowsValid tableRoot raw ∧ locator.slot.toNat < DataPageDirectory.declaredRowCount raw

/-- The kept counts are those of their pages, in the order of the pages. -/
structure Kept (file : PageFile) (tableRoot : PageNumber) (rows : RowReferenceValidator) :
    Prop where
  sorted : rows.validated.Pairwise fun a b => a.1 < b.1
  count : ∀ entry ∈ rows.validated, readRowCount file tableRoot entry.1 = .ok entry.2

variable {file : PageFile} {tableRoot : PageNumber} {rows : RowReferenceValidator}

/-- A reader that has seen no page keeps nothing. -/
theorem kept_empty : Kept file tableRoot { validated := [] } :=
  ⟨.nil, by simp⟩

/-- The row count of a data page of the table. -/
theorem readRowCount_ok_iff {page : PageNumber} {count : ℕ} :
    readRowCount file tableRoot page = .ok count ↔
      ∃ raw, file[page]? = some raw ∧ classifyPage page raw = .data ∧ RowsValid tableRoot raw ∧
        count = DataPageDirectory.declaredRowCount raw := by
  simp only [readRowCount, bind_ok_iff, exists_unit, mapError_ok_iff, refuseIf_ok_iff, not_not,
    PageFile.readClassifiedPage_ok_iff, pure_ok_iff, RowDirectory.validate_ok_iff, ne_eq]
  constructor
  · rintro ⟨_, ⟨raw, hraw, rfl⟩, hkind, _, ⟨hvalid, rfl⟩, rfl⟩
    exact ⟨raw, hraw, hkind, hvalid, rfl⟩
  · rintro ⟨raw, hraw, hkind, hvalid, rfl⟩
    exact ⟨_, ⟨raw, hraw, rfl⟩, hkind, _, ⟨hvalid, rfl⟩, rfl⟩

/-- The kept counts are searched as they are sorted. -/
theorem Kept.ordered (h : Kept file tableRoot rows) (page : PageNumber) :
    rows.validated.Pairwise fun a b => (compare a.1 page = .gt → compare b.1 page = .gt) ∧
      (compare b.1 page = .lt → compare a.1 page = .lt) := by
  refine h.sorted.imp fun {a b} hlt => ?_
  simp only [Nat.compare_eq_gt, Nat.compare_eq_lt]
  exact ⟨fun ha => lt_trans ha hlt, fun hb => lt_trans hlt hb⟩

/-- A page whose count is not kept is put between the pages before and after it. -/
theorem Kept.insert {page : PageNumber} {position count : ℕ} (h : Kept file tableRoot rows)
    (hmissing : Search.binarySearchBy (fun entry => compare entry.1 page) rows.validated =
      .error position) (hcount : readRowCount file tableRoot page = .ok count) :
    Kept file tableRoot { validated := rows.validated.insertIdx position (page, count) } := by
  -- a page that the search missed is not listed
  have hnone : ∀ entry ∈ rows.validated, entry.1 ≠ page := by
    intro entry hentry heq
    have hfound := (Search.isOk_binarySearchBy_iff (h.ordered page)).mpr
      ⟨entry, hentry, by rw [heq, Nat.compare_eq_eq]⟩
    rw [hmissing] at hfound
    obtain ⟨_, hfound⟩ := hfound
    cases hfound
  obtain ⟨front, back, hsplit, hfront, hback, -⟩ := Search.exists_split
    (fun entry : PageNumber × ℕ => decide (entry.1 < page))
    (h.sorted.imp fun {a b} hlt => by simpa using hlt.trans)
  simp only [decide_eq_true_eq, decide_eq_false_iff_not, not_lt] at hfront hback
  have hafter : ∀ entry ∈ back, page < entry.1 := fun entry hentry =>
    lt_of_le_of_ne (hback entry hentry)
      (hnone entry (hsplit ▸ List.mem_append_right front hentry)).symm
  -- the search stops where the smaller pages end, so the list stays sorted
  have hposition := @Search.binarySearchBy_append _ (fun entry => compare entry.1 page) front back
    (fun entry hentry => Nat.compare_eq_lt.mpr (hfront entry hentry))
    (fun entry hentry => Nat.compare_eq_gt.mpr (hafter entry hentry))
  rw [← hsplit, hmissing, Except.error.injEq] at hposition
  have hsorted := h.sorted
  rw [hsplit] at hsorted
  obtain ⟨hleft, hright, hcross⟩ := List.pairwise_append.mp hsorted
  rw [hposition, hsplit, Search.insertIdx_append_length]
  refine ⟨List.pairwise_append.mpr ⟨hleft, List.pairwise_cons.mpr ⟨hafter, hright⟩, ?_⟩, ?_⟩
  · intro a ha b hb
    rcases List.mem_cons.mp hb with rfl | hb
    · exact hfront a ha
    · exact hcross a ha b hb
  · intro entry hentry
    rcases List.mem_append.mp hentry with hentry | hentry
    · exact h.count entry (hsplit ▸ List.mem_append_left back hentry)
    · rcases List.mem_cons.mp hentry with rfl | hentry
      · exact hcount
      · exact h.count entry (hsplit ▸ List.mem_append_right front hentry)

/-- A kept count is the count of its page. -/
theorem Kept.rowCount_ok {page : PageNumber} {rows' : RowReferenceValidator} {count : ℕ}
    (h : Kept file tableRoot rows)
    (hcount : rows.rowCount file tableRoot page = .ok (rows', count)) :
    Kept file tableRoot rows' ∧ readRowCount file tableRoot page = .ok count := by
  unfold rowCount at hcount
  split at hcount
  next position hfound =>
    obtain ⟨entry, hentry, hcompare⟩ := Search.binarySearchBy_ok hfound
    rw [Nat.compare_eq_eq] at hcompare
    rw [List.getD_eq_getElem?_getD, hentry, Option.getD_some, Except.ok.injEq, Prod.mk.injEq]
      at hcount
    obtain ⟨rfl, rfl⟩ := hcount
    rw [← hcompare]
    exact ⟨h, h.count entry (List.mem_of_getElem? hentry)⟩
  next position hmissing =>
    simp only [bind_ok_iff, pure_ok_iff, Prod.mk.injEq] at hcount
    obtain ⟨_, hread, rfl, rfl⟩ := hcount
    exact ⟨h.insert hmissing hread, hread⟩

/-- A page whose rows can be counted once can be counted again. -/
theorem Kept.exists_rowCount {page : PageNumber} {count : ℕ} (h : Kept file tableRoot rows)
    (hread : readRowCount file tableRoot page = .ok count) :
    ∃ rows', rows.rowCount file tableRoot page = .ok (rows', count) := by
  cases hsearch : Search.binarySearchBy (fun entry => compare entry.1 page) rows.validated with
  | ok position =>
    have hfound : rows.rowCount file tableRoot page =
        .ok (rows, (rows.validated.getD position (page, 0)).2) := by
      rw [rowCount, hsearch]
    obtain ⟨-, hsame⟩ := h.rowCount_ok hfound
    rw [hread, Except.ok.injEq] at hsame
    exact ⟨rows, by rw [hfound, ← hsame]⟩
  | error position =>
    refine ⟨{ validated := rows.validated.insertIdx position (page, count) }, ?_⟩
    rw [rowCount, hsearch]
    simp only [hread, bind, Except.bind, pure, Except.pure]

/-- A locator is accepted exactly when its page has the row, whatever pages were read before. -/
theorem validate_ok_iff {locator : RowLocator} (h : Kept file tableRoot rows) :
    (∃ rows', rows.validate file tableRoot locator = .ok rows') ↔
      Listed file tableRoot locator := by
  simp only [validate, bind_ok_iff, exists_unit, refuseIf_ok_iff, Prod.exists, pure_ok_iff, not_le,
    ge_iff_le]
  constructor
  · rintro ⟨_, rows', count, hcount, hslot, -⟩
    obtain ⟨-, hread⟩ := h.rowCount_ok hcount
    obtain ⟨raw, hraw, hkind, hvalid, rfl⟩ := readRowCount_ok_iff.mp hread
    exact ⟨raw, hraw, hkind, hvalid, hslot⟩
  · rintro ⟨raw, hraw, hkind, hvalid, hslot⟩
    obtain ⟨rows', hcount⟩ :=
      h.exists_rowCount (readRowCount_ok_iff.mpr ⟨raw, hraw, hkind, hvalid, rfl⟩)
    exact ⟨rows', rows', _, hcount, hslot, rfl⟩

/-- A checked locator is one of a listed row, and what was kept stays so. -/
theorem Kept.validate_ok {locator : RowLocator} {rows' : RowReferenceValidator}
    (h : Kept file tableRoot rows) (hvalidate : rows.validate file tableRoot locator = .ok rows') :
    Kept file tableRoot rows' := by
  simp only [validate, bind_ok_iff, exists_unit, refuseIf_ok_iff, Prod.exists, pure_ok_iff]
    at hvalidate
  obtain ⟨_, _, hcount, -, rfl⟩ := hvalidate
  exact (h.rowCount_ok hcount).1

end RowReferenceValidator

end Jet3
