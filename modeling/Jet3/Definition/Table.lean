import Jet3.Definition.Index
import Jet3.Definition.LongValueMap

/-!
# Table definitions

The decoder of a complete table definition: a fixed header with the counts of its sections, the
prefixes of the physical indexes, the columns, the indexes, the long-value map groups and a
terminator.
-/

namespace Jet3

open Outcome

/-- The marker of a user table. -/
def userHeaderMarker : UInt8 := 0x4e
/-- The marker of a system table. -/
def systemHeaderMarker : UInt8 := 0x53
/-- The end of a definition. -/
def terminator : List UInt8 := [0xff, 0xff]

/-- The owned-page and available-page map rows of a table. -/
structure TableMapLocations where
  owned : MapRowLocator
  available : MapRowLocator
  deriving DecidableEq, Repr

/-- A decoded definition, with the bytes the decoder keeps as they are. -/
structure TableDefinition where
  root : PageNumber
  kind : TableDefinitionKind
  logicalLength : ℕ
  pages : List PageNumber
  maps : TableMapLocations
  columns : List ColumnDefinition
  physicalIndexes : List PhysicalIndexDefinition
  indexes : List IndexDefinition
  longValueMaps : List LongValueMapDefinition
  rawHeader : Bytes definitionHeaderLen
  rawSuffix : List UInt8
  deriving DecidableEq, Repr

namespace TableDefinition

/-- The row count the header has. -/
def rowCount (table : TableDefinition) : ℕ :=
  leAt table.rawHeader.val rowCountField 4

/-- The high-water count of physical column identities. -/
def storageColumnCount (table : TableDefinition) : ℕ :=
  leAt table.rawHeader.val storageColumnCountField 2

/-- The high-water count of variable storage slots. -/
def storageVariableCount (table : TableDefinition) : ℕ :=
  leAt table.rawHeader.val storageVariableCountField 2

end TableDefinition

/-- The kind of a stored marker. -/
def decodeKind (marker : UInt8) : Except TableDefinitionError TableDefinitionKind :=
  if marker = userHeaderMarker then .ok .user
  else if marker = systemHeaderMarker then .ok .system
  else .error (.invalidHeaderMarker marker)

/-- The counts of the header agree with each other. -/
def decodeCounts (kind : TableDefinitionKind) (header : Bytes definitionHeaderLen) :
    Except TableDefinitionError ColumnContext := do
  let storageCount := leAt header.val storageColumnCountField 2
  let variableCount := leAt header.val storageVariableCountField 2
  let columnCount := leAt header.val columnCountField 2
  refuseIf (columnCount > storageCount ∨ storageCount > 255)
    (.inconsistentColumnCount storageCount columnCount)
  refuseIf (variableCount > storageCount) (.inconsistentVariableCount variableCount storageCount)
  let reserved := leAt header.val reservedCountField 2
  refuseIf (reserved ≠ 0) (.unsupportedReservedCount reserved)
  return { kind, columnCount, storageCount, variableCount }

/-- One iteration over the physical-index prefixes. -/
def takePhysicalPrefix (total : ℕ) (state : List (Bytes physicalPrefixLen) × List UInt8) (_ : ℕ) :
    Except TableDefinitionError (List (Bytes physicalPrefixLen) × List UInt8) := do
  let (record, rest) ← Reader.take .truncated total physicalPrefixLen state.2
  return (state.1 ++ [record], rest)

/-- The prefixes stand together before the columns, so a short definition is missing all of them. -/
def takePhysicalPrefixes (total count : ℕ) (rest : List UInt8) :
    Except TableDefinitionError (List (Bytes physicalPrefixLen) × List UInt8) := do
  let _ ← Reader.take .truncated total (count * physicalPrefixLen) rest
  (List.range count).foldlM (takePhysicalPrefix total) ([], rest)

/-- The end of a definition: what stands before the terminator is the suffix. -/
def splitSuffix (total : ℕ) (rest : List UInt8) : Except TableDefinitionError (List UInt8) := do
  refuseIf (¬terminatorLen ≤ rest.length) (.truncated (total - rest.length) terminatorLen total)
  let suffix := rest.take (rest.length - terminatorLen)
  let actual := rest.drop (rest.length - terminatorLen)
  refuseIf (actual ≠ terminator) (.invalidTerminator (total - terminatorLen) actual)
  return suffix

/-- `decode_definition`; the reader of the chain sets the pages and the length. -/
def decodeDefinition (bytes : List UInt8) (root : PageNumber) (maps : TableMapLocations)
    (pageCount : ℕ) : Except TableDefinitionError TableDefinition := do
  let total := bytes.length
  let (rawHeader, rest) ← Reader.take .truncated total definitionHeaderLen bytes
  let kind ← decodeKind (byteAt rawHeader.val headerMarkerField)
  let context ← decodeCounts kind rawHeader
  let physicalCount := leAt rawHeader.val physicalIndexCountField 2
  let (prefixes, rest) ← takePhysicalPrefixes total physicalCount rest
  let (columns, rest) ← decodeColumns context total rest
  let indexContext : IndexDecodeContext :=
    { kind, columns, logicalCount := leAt rawHeader.val logicalIndexCountField 2, physicalCount
      pageCount }
  let ((physicalIndexes, indexes), rest) ←
    (decodeIndexes indexContext total prefixes rest).mapError .index
  let rawSuffix ← splitSuffix total rest
  let longValueMaps ← (decodeLongValueMaps pageCount columns rawSuffix).mapError .longValueMap
  return { root, kind, logicalLength := 0, pages := [], maps, columns, physicalIndexes, indexes
           longValueMaps, rawHeader, rawSuffix }

/-! ## References -/

/-- A page the definition refers to is of an accepted kind. -/
def checkReferenceKind (file : PageFile) (page : PageNumber) (role : String)
    (accepted : PageKind → Bool) : Except TableDefinitionError Unit := do
  let classified ← (file.readClassifiedPage page).mapError .page
  refuseIf (¬accepted classified.kind) (.unexpectedReferenceKind role page classified.kind)

/-- A map row the definition refers to holds a map. -/
def checkMapGroupRow (file : PageFile) (map : LongValueMapDefinition) (role : String)
    (locator : MapRowLocator) : Except TableDefinitionError Unit := do
  let classified ← (file.readClassifiedPage locator.page).mapError .page
  let _ ← (locateUsageMap classified locator).mapError fun source =>
    .longValueMap (.invalidMapRow map.column role locator source)
  return ()

/-- The table a relationship refers to has a definition. -/
def checkLogicalReference (file : PageFile) (index : IndexDefinition) :
    Except TableDefinitionError Unit :=
  match index.kind with
  | .relationship reference =>
    checkReferenceKind file reference.relatedTable "related table definition" (· = .tableDefinition)
  | _ => .ok ()

/-- `validate_references`: the pages a definition names have the kinds they are named for. -/
def validateReferences (file : PageFile) (table : TableDefinition) :
    Except TableDefinitionError Unit := do
  forM table.longValueMaps fun map => do
    checkMapGroupRow file map "owned" map.owned
    checkMapGroupRow file map "available" map.available
  forM table.physicalIndexes fun index => do
    checkReferenceKind file index.usageMap.page "index usage map" (· = .data)
    checkReferenceKind file index.root "index root"
      fun kind => kind = .intermediateIndex ∨ kind = .leafIndex
  forM table.indexes (checkLogicalReference file)

end Jet3
