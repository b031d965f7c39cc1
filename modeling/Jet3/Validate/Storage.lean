import Jet3.Alloc.MapPages
import Jet3.Definition.Table

/-!
# Validating page roles

Read-only validation of who uses which page. The definition pages and the allocation maps of every
table are visited in turn; three sets of pages say which roles were met so far.
-/

namespace Jet3

open Outcome

/-- Which part of the storage breaks a rule. -/
inductive StorageValidationError where
  | map (locator : MapRowLocator) (source : AllocationTraversalError)
  | definition (root : PageNumber) (source : TableDefinitionError)
  | page (page : PageNumber) (detail : String)
  | mapInvariant (locator : MapRowLocator) (detail : String)
  | read (source : DatabasePageError)
  | directory (source : RowDirectoryError)
  | resource (source : Error)
  deriving DecidableEq, Repr

/-- `shared`: what a failure of the mutation's map reader is to the validator. -/
def StorageValidationError.shared (locator : MapRowLocator) : WriteError → StorageValidationError
  | .resource source => .resource source
  | .definition (.page source) => .read source
  | .definition source => .definition locator.page source
  | .directory source => .directory source
  | .usageMap source => .map locator (.usageMap source)
  | .allocation source => .map locator (.allocationMap source)
  | .notFound detail | .mismatch detail | .unsupported detail => .mapInvariant locator detail
  | _ => .mapInvariant locator "unexpected shared storage reader failure"

/-! ## Sets of pages -/

/-- One bit for each page of a file. -/
structure VisitedPages where
  pageCount : ℕ
  visited : List PageNumber
  deriving DecidableEq, Repr

namespace VisitedPages

/-- No page has been visited. -/
def new (pageCount : ℕ) : VisitedPages :=
  { pageCount, visited := [] }

/-- Whether a page was visited. -/
def contains (pages : VisitedPages) (page : PageNumber) : Bool :=
  page < pages.pageCount ∧ page ∈ pages.visited

/-- Marks a page and reports whether it was marked before. -/
def insert (pages : VisitedPages) (page : PageNumber) : Except Error (Bool × VisitedPages) := do
  refuseIf (¬page < pages.pageCount) (.pageOutOfBounds page pages.pageCount)
  return (pages.contains page, { pages with visited := page :: pages.visited })

end VisitedPages

/-! ## The validator -/

/-- What the validation has seen so far: the pages of each role, and the maps. -/
structure AllocationState where
  global : MapBits
  content : VisitedPages
  metadata : VisitedPages
  exclusive : VisitedPages
  maps : List MapRowLocator
  deriving DecidableEq, Repr

namespace AllocationState

/-- `map`. -/
def loadMap (file : PageFile) (locator : MapRowLocator) : Except StorageValidationError MapBits :=
  (MapBits.load file locator).mapError (.shared locator)

/-- The pages a map lists, all of which are in the file. -/
def members (map : MapBits) (count : ℕ) : Except StorageValidationError (List PageNumber) :=
  (map.existingPages count false).mapError (.shared map.locator)

/-- A page that is in use is not listed as free. -/
def allocated (state : AllocationState) (page : PageNumber) : Except StorageValidationError Unit :=
  refuseIf (state.global.contains page) (.page page "owned or metadata page is globally free")

/-- Gives a page the role of metadata. A map-record page may hold several records; any other
metadata page is `exclusive`. -/
def metadataPage (state : AllocationState) (page : PageNumber) (exclusive : Bool) :
    Except StorageValidationError AllocationState := do
  state.allocated page
  refuseIf (state.content.contains page ∨ state.exclusive.contains page ∨
      (exclusive ∧ state.metadata.contains page))
    (.page page "shared definition, bitmap or content page")
  let (_, visited) ← (state.metadata.insert page).mapError .resource
  let state := { state with metadata := visited }
  if exclusive then
    let (_, visited) ← (state.exclusive.insert page).mapError .resource
    return { state with exclusive := visited }
  else return state

/-- The pages beside its record that a map keeps its bitmaps on. -/
def bitmapPages (map : MapBits) : List PageNumber :=
  (map.spans.map BitSpan.page).filter (· ≠ map.locator.page)

/-- Records the row of a map, which no other role may use. -/
def registerMap (state : AllocationState) (map : MapBits) :
    Except StorageValidationError AllocationState := do
  refuseIf (map.locator ∈ state.maps)
    (.page map.locator.page "allocation map shared between roles")
  let state := { state with maps := state.maps ++ [map.locator] }
  let state ← state.metadataPage map.locator.page false
  (bitmapPages map).foldlM (metadataPage · · true) state

/-- Gives a page the role of content. -/
def contentPage (state : AllocationState) (page : PageNumber) :
    Except StorageValidationError AllocationState := do
  state.allocated page
  refuseIf (state.metadata.contains page) (.page page "page is owned by incompatible roles")
  let (seen, visited) ← (state.content.insert page).mapError .resource
  refuseIf seen (.page page "page is owned by incompatible roles")
  return { state with content := visited }

/-- An available map lists owned pages only. -/
def availableMap (state : AllocationState) (file : PageFile) (owned : MapBits)
    (locator : MapRowLocator) : Except StorageValidationError AllocationState := do
  let available ← loadMap file locator
  let state ← state.registerMap available
  let pages ← members available file.pageCount
  forM pages fun page =>
    refuseIf (owned.contains page = false) (.page page "available page is not owned")
  return state

/-- Records the pages of an owned map and checks its available map. -/
def owned (state : AllocationState) (file : PageFile)
    (maps : MapRowLocator × Option MapRowLocator) :
    Except StorageValidationError AllocationState := do
  let owned ← loadMap file maps.1
  let state ← state.registerMap owned
  let pages ← members owned file.pageCount
  let state ← pages.foldlM contentPage state
  match maps.2 with
  | none => return state
  | some locator => state.availableMap file owned locator

/-- The owned maps of a table, each with its available map: the table's own, those of its indexes
and those of its long-value columns. -/
def ownedMaps (definition : TableDefinition) : List (MapRowLocator × Option MapRowLocator) :=
  (definition.maps.owned, some definition.maps.available) ::
    (definition.physicalIndexes.map (fun index => (index.usageMap, none)) ++
      definition.longValueMaps.map fun group => (group.owned, some group.available))

/-- Records every page of a table. -/
def table (state : AllocationState) (file : PageFile) (definition : TableDefinition) :
    Except StorageValidationError AllocationState := do
  let state ← definition.pages.foldlM (metadataPage · · true) state
  (ownedMaps definition).foldlM (owned · file ·) state

/-- Starts with the global map and the page it is on. -/
def new (file : PageFile) : Except StorageValidationError AllocationState := do
  let global ← loadMap file globalLocator
  let state : AllocationState :=
    { global, content := .new file.pageCount, metadata := .new file.pageCount
      exclusive := .new file.pageCount, maps := [] }
  let state ← state.metadataPage 0 true
  let global ← loadMap file state.global.locator
  state.registerMap global

/-- `new`, followed by `table` for each definition. -/
def validateTables (file : PageFile) (definitions : List TableDefinition) :
    Except StorageValidationError AllocationState := do
  let state ← new file
  definitions.foldlM (table · file ·) state

end AllocationState

end Jet3
