import Jet3.Format.Page

/-!
# Page kinds

The classification of a page by its first byte. Page zero is the database definition; a tag in the
wrong place, or one outside the documented six, is classified as unknown and not refused.
-/

namespace Jet3

/-- The kinds of pages, told apart by their first byte. -/
inductive PageKind where
  | databaseDefinition
  | data
  | tableDefinition
  | intermediateIndex
  | leafIndex
  | extendedUsageBitmap
  | unknown (tag : UInt8)
  deriving DecidableEq, Repr

namespace PageKind

/-- `page_tag`: the first byte of a page of this kind. -/
def tag : PageKind → UInt8
  | databaseDefinition => 0
  | data => 1
  | tableDefinition => 2
  | intermediateIndex => 3
  | leafIndex => 4
  | extendedUsageBitmap => 5
  | unknown tag => tag

/-- `PageImage::new`: a zero-filled page carrying the tag of `kind`. -/
def newImage (kind : PageKind) : Page :=
  (Block.fill pageBytes 0).write 0 [kind.tag]

end PageKind

/-- A complete page with its classification. -/
structure ClassifiedPage where
  number : PageNumber
  kind : PageKind
  raw : Page

/-- `classify_page`. -/
def classifyPage (number : PageNumber) (raw : Page) : PageKind :=
  let tag := raw.get 0
  if number = 0 then
    if tag = 0 then .databaseDefinition else .unknown tag
  else if tag = 1 then .data
  else if tag = 2 then .tableDefinition
  else if tag = 3 then .intermediateIndex
  else if tag = 4 then .leafIndex
  else if tag = 5 then .extendedUsageBitmap
  else .unknown tag

/-- A page past page zero has the documented kind of its first byte. -/
theorem classifyPage_eq_iff {number : PageNumber} {raw : Page} {kind : PageKind}
    (hnumber : number ≠ 0) (hkind : ∀ tag, kind ≠ .unknown tag)
    (hzero : kind ≠ .databaseDefinition) :
    classifyPage number raw = kind ↔ raw.get 0 = kind.tag := by
  simp only [classifyPage, if_neg hnumber]
  cases kind with
  | unknown tag => exact absurd rfl (hkind tag)
  | databaseDefinition => exact absurd rfl hzero
  | data => split_ifs <;> simp_all [PageKind.tag]
  | tableDefinition => split_ifs <;> simp_all [PageKind.tag]
  | intermediateIndex => split_ifs <;> simp_all [PageKind.tag]
  | leafIndex => split_ifs <;> simp_all [PageKind.tag]
  | extendedUsageBitmap => split_ifs <;> simp_all [PageKind.tag]

/-- Page zero is never a page of another documented kind. -/
theorem ne_zero_of_classifyPage {number : PageNumber} {raw : Page} {kind : PageKind}
    (hkind : ∀ tag, kind ≠ .unknown tag) (hzero : kind ≠ .databaseDefinition)
    (h : classifyPage number raw = kind) : number ≠ 0 := by
  rintro rfl
  simp only [classifyPage, ↓reduceIte] at h
  split at h
  · exact hzero h.symm
  · exact hkind _ h.symm

end Jet3
