import Jet3.Definition.Table
import Jet3.Index.Tree.Builder
import Jet3.Row.Directory

/-!
# Index pages

The header, the links and the entry boundaries of one index page, checked before any entry is read.

* `boundaries` lists the ends of the entries;
* `parseNode` is the check of a page.
-/

namespace Jet3

open Outcome

/-- The second byte of a node page. -/
def headerMarker : UInt8 := 1

/-- The marker of a leaf. -/
def leafNodeMarker : UInt8 := 0

/-- The markers of a branch. -/
def intermediateNodeMarkers : List UInt8 := [1, 2, 3]

/-- Branches and leaves. -/
inductive IndexNodeKind where
  | intermediate
  | leaf
  deriving DecidableEq, Repr

/-- One visited node and its sibling links. -/
structure IndexNode where
  page : PageNumber
  kind : IndexNodeKind
  depth : ℕ
  previous : Option PageNumber
  next : Option PageNumber
  deriving DecidableEq, Repr

/-- Why pages are no index tree. -/
inductive IndexTreeError where
  | invalidPhysicalIndexOrdinal (ordinal count : ℕ)
  | page (source : DatabasePageError)
  | unexpectedPageKind (page : PageNumber) (actual : PageKind)
  | unexpectedOwner (page expected actual : PageNumber)
  | invalidHeaderMarker (page : PageNumber) (offset : ℕ) (raw : UInt8)
  | invalidFreeSpace (page : PageNumber) (raw expected : ℕ)
  | invalidEntryBoundary (page : PageNumber) (boundary previous : ℕ)
  | boundaryOutsideEntryArea (page : PageNumber) (boundary : ℕ)
  | truncatedEntry (page : PageNumber) (entry length : ℕ)
  | emptyIntermediate (page : PageNumber)
  | invalidTailChild (page child : PageNumber)
  | unexpectedRowPageKind (page : PageNumber) (actual : PageKind)
  | rowDirectory (page : PageNumber) (source : RowDirectoryError)
  | invalidReference (page : PageNumber) (role : String) (reference : PageNumber) (source : Error)
  | selfReference (page : PageNumber) (role : String)
  | repeatedPage (page : PageNumber)
  | inconsistentLeafDepth (page : PageNumber) (expected actual : ℕ)
  | invalidSiblingLink (page : PageNumber) (role : String) (expected actual : Option PageNumber)
  deriving DecidableEq, Repr

/-- A node to visit. -/
structure PendingNode where
  page : PageNumber
  depth : ℕ
  deriving DecidableEq, Repr

/-- A node page: what is reported of it, and what reading its entries needs. -/
structure ParsedNode where
  node : IndexNode
  prefixLen : ℕ
  tailChild : PageNumber
  deriving DecidableEq, Repr

/-- The set bits of the boundary bitmap, from the lowest to the highest. -/
def boundaries (page : Page) : List ℕ :=
  Bitmap.members (page.slice boundaryBitmapOffset entryAreaOffset)

/-- `validate_reference` of a page that another one names. -/
def validateIndexReference (pageCount : ℕ) (containing reference : PageNumber) (role : String) :
    Except IndexTreeError Unit :=
  (validateReference pageCount reference).mapError (.invalidReference containing role reference)

/-- The link at `offset`; zero is no link. -/
def optionalReference (page : Page) (offset : ℕ) (containing : PageNumber) (role : String)
    (pageCount : ℕ) : Except IndexTreeError (Option PageNumber) :=
  let reference := u32At page offset
  if reference = 0 then .ok none
  else do
    refuseIf (reference = containing) (.selfReference containing role)
    validateIndexReference pageCount containing reference role
    return some reference

/-- The kind of node on a page. -/
def nodeKind (page : PageNumber) : PageKind → Except IndexTreeError IndexNodeKind
  | .intermediateIndex => .ok .intermediate
  | .leafIndex => .ok .leaf
  | actual => .error (.unexpectedPageKind page actual)

/-- Whether the marker of a node fits its kind. -/
def validMarker (kind : IndexNodeKind) (marker : UInt8) : Bool :=
  match kind with
  | .intermediate => decide (marker ∈ intermediateNodeMarkers)
  | .leaf => marker == leafNodeMarker

/-- Only a branch has a child behind its last entry. -/
def validTailChild (kind : IndexNodeKind) (child : PageNumber) : Bool :=
  match kind with
  | .intermediate => child ≠ 0
  | .leaf => child = 0

/-- One iteration over the boundaries. The state is the previous one, and the number of entries. -/
def checkBoundary (page : PageNumber) (state : ℕ × ℕ) (boundary : ℕ) :
    Except IndexTreeError (ℕ × ℕ) := do
  refuseIf (boundary > entryAreaLen) (.boundaryOutsideEntryArea page boundary)
  refuseIf (boundary ≤ state.1) (.invalidEntryBoundary page boundary state.1)
  return (boundary, state.2 + 1)

/-- Reads the header of a node page and checks it against where it was expected. -/
def parseNode (kind : PageKind) (pending : PendingNode) (expectedOwner : PageNumber)
    (pageCount : ℕ) (page : Page) : Except IndexTreeError ParsedNode := do
  let nodeKind ← nodeKind pending.page kind
  refuseIf (page.get 1 ≠ headerMarker) (.invalidHeaderMarker pending.page 1 (page.get 1))
  let owner := u32At page 4
  refuseIf (owner ≠ expectedOwner) (.unexpectedOwner pending.page expectedOwner owner)
  let marker := page.get 21
  refuseIf (validMarker nodeKind marker = false) (.invalidHeaderMarker pending.page 21 marker)
  let previous ← optionalReference page 8 pending.page "previous sibling" pageCount
  let next ← optionalReference page 12 pending.page "next sibling" pageCount
  let tailChild := u32At page 16
  refuseIf (validTailChild nodeKind tailChild = false) (.invalidTailChild pending.page tailChild)
  let prefixLen := (page.get 20).toNat
  let (lastBoundary, entryCount) ← (boundaries page).foldlM (checkBoundary pending.page)
    (prefixLen, 0)
  refuseIf (entryCount = 0 ∧ prefixLen ≠ 0) (.invalidEntryBoundary pending.page 0 prefixLen)
  let expectedFree := entryAreaLen - lastBoundary
  refuseIf (u16At page 2 ≠ expectedFree)
    (.invalidFreeSpace pending.page (u16At page 2) expectedFree)
  -- a deletion can leave a root that has its last child only
  refuseIf (nodeKind = .intermediate ∧ entryCount = 0 ∧ (pending.depth ≠ 1 ∨ marker ≠ 1))
    (.emptyIntermediate pending.page)
  return { node := { page := pending.page, kind := nodeKind, depth := pending.depth
                     previous, next }
           prefixLen, tailChild }

end Jet3
