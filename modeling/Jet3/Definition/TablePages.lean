import Jet3.Definition.Table

/-!
# Definition chains

A table definition is stored in a chain of pages: the root holds its first 2,048 bytes, header
included, and each continuation 2,040 bytes behind its own header. The second word of a page is the
number of the next one.

* `readDefinitionChain` follows a chain and collects its logical bytes;
* `tableDefinition` decodes them.
-/

namespace Jet3

open Outcome

/-- The first bytes of every page of a definition. -/
def definitionPrefix : List UInt8 := [0x02, 0x01, 0x56, 0x43]

/-- The payload of a continuation page. -/
def continuationCapacity : ℕ := pageBytes - continuationPayloadOffset

/-- The number of the next page. -/
def nextPage (page : Page) : PageNumber :=
  u32At page 4

/-- The pages a walk has followed; none is followed twice. -/
structure PageChainWalker where
  visited : List PageNumber

namespace PageChainWalker

/-- A walk that has not visited a page. -/
def new : PageChainWalker :=
  { visited := [] }

/-- Follows `page`, requiring it to have the kind `expected`. -/
def follow (walker : PageChainWalker) (file : PageFile) (page : PageNumber) (expected : PageKind) :
    Except AllocationTraversalError (ClassifiedPage × PageChainWalker) := do
  (validateReference file.pageCount page).mapError (.invalidReference page)
  let classified ← (file.readClassifiedPage page).mapError .page
  refuseIf (classified.kind ≠ expected) (.unexpectedPageKind page expected classified.kind)
  refuseIf (page ∈ walker.visited) (.repeatedPage page)
  return (classified, { visited := page :: walker.visited })

end PageChainWalker

/-- The locator at an offset of the root page, which names a page of the file. -/
def locateTableMap (pageCount : ℕ) (page : Page) (role : String) (offset : ℕ) :
    Except MapLocationError MapRowLocator := do
  let locator := decodeLocator (page.slice offset (offset + 4))
  (validateReference pageCount locator.page).mapError (.invalidReference role locator)
  return locator

/-- Decodes both allocation-map row locators from a classified definition page. -/
def locateTableMaps (pageCount : ℕ) (page : ClassifiedPage) :
    Except MapLocationError TableMapLocations := do
  refuseIf (page.kind ≠ .tableDefinition) (.expectedTableDefinition page.number page.kind)
  let owned ← locateTableMap pageCount page.raw "owned" 35
  let available ← locateTableMap pageCount page.raw "available" 39
  return { owned, available }

/-- A page of a definition starts with the prefix. -/
def validatePrefix (number : PageNumber) (page : Page) : Except TableDefinitionError Unit :=
  refuseIf (page.slice 0 4 ≠ definitionPrefix) (.invalidPrefix number (page.slice 0 4))

/-- What was read of a chain: its bytes and pages, and the link of the last page. -/
structure ChainRead where
  bytes : List UInt8
  pages : List PageNumber
  current : PageNumber
  next : PageNumber
  walker : PageChainWalker

namespace ChainRead

/-- Follows the link of the last page and takes `count` bytes of its payload. -/
def advance (file : PageFile) (chain : ChainRead) (count : ℕ) :
    Except TableDefinitionError ChainRead := do
  let (classified, walker) ← (chain.walker.follow file chain.next .tableDefinition).mapError .chain
  validatePrefix chain.next classified.raw
  return { bytes := chain.bytes ++
             classified.raw.slice continuationPayloadOffset (continuationPayloadOffset + count)
           pages := chain.pages ++ [chain.next], current := chain.next
           next := nextPage classified.raw, walker }

/-- Reads continuations until `remaining` bytes are collected. -/
def readContinuations (file : PageFile) (chain : ChainRead) (remaining : ℕ) :
    Except TableDefinitionError ChainRead :=
  if remaining = 0 then .ok chain
  else do
    refuseIf (chain.next = 0) (.truncatedChain chain.current remaining)
    let chain ← chain.advance file (min remaining continuationCapacity)
    readContinuations file chain (remaining - min remaining continuationCapacity)
termination_by remaining
decreasing_by
  have hcapacity : 0 < continuationCapacity := by decide
  omega

/-- An exact payload boundary may retain one empty terminal page. -/
def readTerminal (file : PageFile) (chain : ChainRead) (length : ℕ) :
    Except TableDefinitionError ChainRead :=
  if chain.next ≠ 0 ∧ length ≥ pageBytes ∧ (length - pageBytes) % continuationCapacity = 0 then
    chain.advance file 0
  else .ok chain

end ChainRead

/-- `read_definition_chain`. -/
def readDefinitionChain (file : PageFile) (root : PageNumber) :
    Except TableDefinitionError (List UInt8 × TableMapLocations × List PageNumber) := do
  let maximum := (file.pageCount - 1) * continuationCapacity + pageBytes
  let (classified, walker) ← (PageChainWalker.new.follow file root .tableDefinition).mapError .chain
  let page := classified.raw
  validatePrefix root page
  let maps ← (locateTableMaps file.pageCount classified).mapError .mapLocation
  let length := u32At page 8
  let minimum := definitionHeaderLen + terminatorLen
  refuseIf (length < minimum ∨ length > maximum) (.invalidLogicalLength length minimum maximum)
  let start : ChainRead :=
    { bytes := page.slice 0 (min length pageBytes), pages := [root], current := root
      next := nextPage page, walker }
  let chain ← start.readContinuations file (length - min length pageBytes)
  let chain ← chain.readTerminal file length
  refuseIf (chain.next ≠ 0) (.trailingChainReference chain.current chain.next)
  return (chain.bytes, maps, chain.pages)

/-- `table_definition`: reads and decodes the definition at `root`. -/
def tableDefinition (file : PageFile) (root : PageNumber) :
    Except TableDefinitionError TableDefinition := do
  let (bytes, maps, pages) ← readDefinitionChain file root
  let definition ← decodeDefinition bytes root maps file.pageCount
  validateReferences file definition
  return { definition with pages, logicalLength := bytes.length }

end Jet3
