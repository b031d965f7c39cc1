import Jet3.Definition.ColumnWriter
import Jet3.Definition.Table
import Jet3.Row.Layout

/-!
# Encoding table definitions

The encoder of a complete table definition. A request is validated as a whole before anything is
written: counts and names, the row layout the columns imply, every index and every map reference.

The encoder writes the sections the decoder reads; the link of the root page is left zero for the
page assembler.
-/

namespace Jet3

open Outcome

/-- The count of columns is one byte in a row. -/
def maxColumnCount : ℕ := 255

/-- The maps of a column to write. -/
structure LongValueMapSpec where
  column : UInt16
  owned : MapRowLocator
  available : MapRowLocator
  deriving DecidableEq, Repr

/-- The description of one table definition to encode. -/
structure TableDefinitionSpec where
  kind : TableDefinitionKind
  columns : List ColumnSpec
  systemColumnClasses : List SystemColumnClassSpec
  physicalIndexes : List PhysicalIndexSpec
  indexes : List LogicalIndexSpec
  ownedMap : MapRowLocator
  availableMap : MapRowLocator
  rowCount : UInt32
  longValueMaps : List LongValueMapSpec
  deriving DecidableEq, Repr

/-! ## Layout -/

/-- The length of a name with its length byte. -/
def storedNameLen (name : List UInt8) : ℕ :=
  1 + name.length

/-- `definition_len`: the length depends only on the counts and the names. -/
def definitionLen (columns : List ColumnSpec) (indexNames : List (List UInt8))
    (physicalIndexCount longValueMapCount : ℕ) : Except TableDefinitionWriteError ℕ := do
  refuseIf (columns.length > maxColumnCount) (.tooManyColumns columns.length maxColumnCount)
  refuseIf (¬physicalIndexCount < 2 ^ 16) (.tooManyIndexes "physical" physicalIndexCount)
  refuseIf (¬indexNames.length < 2 ^ 16) (.tooManyIndexes "logical" indexNames.length)
  let total := definitionHeaderLen + physicalIndexCount * (physicalPrefixLen + physicalRecordLen) +
    columns.length * columnRecordLen + (columns.map fun column => storedNameLen column.name).sum +
    indexNames.length * logicalRecordLen + (indexNames.map storedNameLen).sum +
    longValueMapCount * longValueMapGroupLen + terminatorLen
  refuseIf (¬total < 2 ^ 32) (.definitionTooLong total)
  return total

/-- `validate_name`. -/
def validateName (role : String) (ordinal : ℕ) (name : List UInt8) (earlier : List (List UInt8)) :
    Except TableDefinitionWriteError Unit := do
  refuseIf (name = []) (.emptyName role ordinal)
  refuseIf (name.length > maxNameLen) (.nameTooLong role ordinal name.length maxNameLen)
  refuseIf (name ∈ earlier) (.duplicateName role ordinal)

/-- One iteration over the columns. -/
def validateColumn (columns : List ColumnSpec) (kind : TableDefinitionKind)
    (systemColumnClasses : List SystemColumnClassSpec) (cursor : ColumnCursor)
    (entry : ColumnSpec × ℕ) : Except TableDefinitionWriteError ColumnCursor := do
  validateName "column" entry.2 entry.1.name ((columns.take entry.2).map ColumnSpec.name)
  let resolved ← resolveColumn entry.2 entry.1 kind systemColumnClasses[entry.2]? cursor
  return resolved.2

/-- The shortest row a layout admits: one of nulls only. -/
def minimumRowLen (columnCount : ℕ) (cursor : ColumnCursor) : ℕ :=
  let trailer := if cursor.variablesSeen = 0 then 0 else cursor.variablesSeen + 2
  let length := 1 + cursor.nextFixedOffset + (columnCount + 8 - 1) / 8 + trailer
  if cursor.variablesSeen > 0 then length + jumpCount length else length

/-- `validate_column_layout`. Returns the number of variable columns. -/
def validateColumnLayout (columns : List ColumnSpec) (kind : TableDefinitionKind)
    (systemColumnClasses : List SystemColumnClassSpec) : Except TableDefinitionWriteError ℕ := do
  refuseIf (columns.length > maxColumnCount) (.tooManyColumns columns.length maxColumnCount)
  let cursor ← columns.zipIdx.foldlM (validateColumn columns kind systemColumnClasses)
    { nextFixedOffset := 0, variablesSeen := 0 }
  let minimum := minimumRowLen columns.length cursor
  let maximum := maximumLength cursor.variablesSeen
  refuseIf (minimum > maximum) (.rowLayoutTooLarge minimum maximum)
  return cursor.variablesSeen

/-! ## Validation -/

/-- A map row is on a page that a locator can name. -/
def validateMapReference (role : String) (locator : MapRowLocator) :
    Except TableDefinitionWriteError Unit :=
  refuseIf (locator.page = 0 ∨ locator.page > maxU24Page) (.invalidMapReference role locator.page)

/-- The flags a definition of this kind may give a physical index. -/
def TableDefinitionKind.admits : TableDefinitionKind → PhysicalIndexFlagsSpec → Bool
  | user, flags => flags ≠ .systemUninterpreted
  | system, flags => flags = .unique ∨ flags = .systemUninterpreted ∨ flags = .required

/-- The checks of one physical index. -/
def validatePhysical (spec : TableDefinitionSpec) (entry : PhysicalIndexSpec × ℕ) :
    Except TableDefinitionWriteError Unit := do
  validatePhysicalIndex entry.2 entry.1 spec.columns
  refuseIf (¬spec.kind.admits entry.1.flags) (.invalidPhysicalFlags entry.2 spec.kind entry.1.flags)

/-- The class of a logical index; the state says whether a primary one was seen. -/
def validateLogicalKind (kind : TableDefinitionKind) (logicalIndex : ℕ)
    (physical : PhysicalIndexSpec)
    (primarySeen : Bool) : LogicalIndexKindSpec → Except TableDefinitionWriteError Bool
  | .ordinary => .ok primarySeen
  | .primary => do
    refuseIf (primarySeen = true) .duplicatePrimaryIndex
    refuseIf (physical.flags.raw ≠ kind.primaryFlags)
      (.invalidPrimaryFlags logicalIndex physical.flags.raw)
    return true
  | .relationship reference => do
    refuseIf (reference.relatedTable = 0 ∨ reference.relatedTable > 2 ^ 32 - 1)
      (.invalidRelationshipReference logicalIndex reference.relatedTable)
    return primarySeen

/-- One iteration over the logical indexes. -/
def validateLogical (spec : TableDefinitionSpec) (primarySeen : Bool)
    (entry : LogicalIndexSpec × ℕ) : Except TableDefinitionWriteError Bool := do
  validateName "logical index" entry.2 entry.1.name
    ((spec.indexes.take entry.2).map LogicalIndexSpec.name)
  let physical ← okOr spec.physicalIndexes[entry.1.physicalIndex.toNat]?
    (.invalidPhysicalIndexOrdinal entry.2 entry.1.physicalIndex.toNat spec.physicalIndexes.length)
  validateLogicalKind spec.kind entry.2 physical primarySeen entry.1.kind

/-- Every physical index is named by a logical one. -/
def validateReferenced (spec : TableDefinitionSpec) : Except TableDefinitionWriteError Unit :=
  match (List.range spec.physicalIndexes.length).find? fun ordinal =>
      ¬∃ index ∈ spec.indexes, index.physicalIndex.toNat = ordinal with
  | some ordinal => .error (.unreferencedPhysicalIndex ordinal)
  | none => .ok ()

/-- The checks of one map group: its column has long values and no earlier group. -/
def validateLongValueMap (spec : TableDefinitionSpec) (entry : LongValueMapSpec × ℕ) :
    Except TableDefinitionWriteError Unit := do
  let validColumn : Bool := spec.columns[entry.1.column.toNat]?.any fun column =>
    column.physicalType.isLongValue
  let duplicate : Bool := (spec.longValueMaps.take entry.2).any fun earlier =>
    earlier.column = entry.1.column
  refuseIf (validColumn = false ∨ duplicate = true)
    (.invalidLongValueMapColumn entry.2 entry.1.column.toNat)
  validateMapReference "long-value owned" entry.1.owned
  validateMapReference "long-value available" entry.1.available

/-- `validate_long_value_maps`: one group a long-value column, and none for another. -/
def validateLongValueMaps (spec : TableDefinitionSpec) : Except TableDefinitionWriteError Unit := do
  forM spec.longValueMaps.zipIdx (validateLongValueMap spec)
  match spec.columns.zipIdx.find? fun entry => entry.1.physicalType.isLongValue ∧
      ¬∃ map ∈ spec.longValueMaps, map.column.toNat = entry.2 with
  | some missing => .error (.missingLongValueMap missing.2)
  | none => .ok ()

/-- `validate`. Returns the number of variable columns. -/
def validateDefinition (spec : TableDefinitionSpec) : Except TableDefinitionWriteError ℕ := do
  refuseIf (spec.columns.length > maxColumnCount)
    (.tooManyColumns spec.columns.length maxColumnCount)
  let expected := match spec.kind with
    | .user => 0
    | .system => spec.columns.length
  refuseIf (spec.systemColumnClasses.length ≠ expected)
    (.invalidSystemColumnClassCount spec.kind spec.systemColumnClasses.length expected)
  refuseIf (¬spec.physicalIndexes.length < 2 ^ 16)
    (.tooManyIndexes "physical" spec.physicalIndexes.length)
  refuseIf (¬spec.indexes.length < 2 ^ 16) (.tooManyIndexes "logical" spec.indexes.length)
  validateMapReference "owned" spec.ownedMap
  validateMapReference "available" spec.availableMap
  let variableCount ← validateColumnLayout spec.columns spec.kind spec.systemColumnClasses
  forM spec.physicalIndexes.zipIdx (validatePhysical spec)
  let _ ← spec.indexes.zipIdx.foldlM (validateLogical spec) false
  validateReferenced spec
  refuseIf (spec.longValueMaps.length > spec.columns.length)
    (.tooManyLongValueMaps spec.longValueMaps.length spec.columns.length)
  validateLongValueMaps spec
  return variableCount

/-! ## Encoding -/

/-- A locator: one row byte, then a three-byte page number. -/
def mapLocatorBytes (locator : MapRowLocator) : Bytes 4 :=
  ⟨[locator.row] ++ leBytes 3 locator.page, rfl⟩

/-- `write_map_locator`. -/
def writeMapLocator (locator : MapRowLocator) : Except TableDefinitionWriteError (Bytes 4) := do
  refuseIf (locator.page > maxU24Page) (.resource (.integerConversion locator.page "u24"))
  return mapLocatorBytes locator

/-- The stored marker of a kind. -/
def TableDefinitionKind.headerMarker : TableDefinitionKind → UInt8
  | user => userHeaderMarker
  | system => systemHeaderMarker

/-- The fixed header: the prefix of a definition, its counts and the rows of its two maps. -/
def headerBytes (spec : TableDefinitionSpec) (variableCount logicalLength : ℕ) :
    Bytes definitionHeaderLen :=
  ⟨[0x02, 0x01, 0x56, 0x43] ++ leBytes 4 0 ++ leBytes 4 logicalLength ++
    leBytes 4 spec.rowCount.toNat ++ leBytes 4 0 ++ [spec.kind.headerMarker] ++
    leBytes 2 spec.columns.length ++ leBytes 2 variableCount ++ leBytes 2 spec.columns.length ++
    leBytes 2 spec.indexes.length ++ leBytes 2 0 ++ leBytes 2 spec.physicalIndexes.length ++
    leBytes 2 0 ++ (mapLocatorBytes spec.ownedMap).val ++ (mapLocatorBytes spec.availableMap).val,
    rfl⟩

/-- `write_header`. -/
def writeHeader (spec : TableDefinitionSpec) (variableCount logicalLength : ℕ) :
    Except TableDefinitionWriteError (Bytes definitionHeaderLen) := do
  let _ ← writeMapLocator spec.ownedMap
  let _ ← writeMapLocator spec.availableMap
  return headerBytes spec variableCount logicalLength

/-- One iteration over the columns: the record of a column. -/
def writeColumn (spec : TableDefinitionSpec) (encodingContext : Bytes 4)
    (state : List (Bytes columnRecordLen) × ColumnCursor) (entry : ColumnSpec × ℕ) :
    Except TableDefinitionWriteError (List (Bytes columnRecordLen) × ColumnCursor) := do
  let (resolved, cursor) ← resolveColumn entry.2 entry.1 spec.kind
    spec.systemColumnClasses[entry.2]?
    state.2
  return (state.1 ++ [writeColumnRecord entry.2 entry.1 resolved spec.kind encodingContext], cursor)

/-- The prefix of a physical index counts its distinct keys. -/
def physicalPrefix (index : PhysicalIndexSpec) : Bytes physicalPrefixLen :=
  ⟨leBytes 4 0 ++ leBytes 4 index.entryCount.toNat, rfl⟩

/-- The stored form of a map group. -/
def mapGroupBytes (map : LongValueMapSpec) : Bytes longValueMapGroupLen :=
  ⟨leBytes 2 map.column.toNat ++ (mapLocatorBytes map.owned).val ++
    (mapLocatorBytes map.available).val, rfl⟩

/-- Writes one map group. -/
def writeMapGroup (map : LongValueMapSpec) :
    Except TableDefinitionWriteError (Bytes longValueMapGroupLen) := do
  let _ ← writeMapLocator map.owned
  let _ ← writeMapLocator map.available
  return mapGroupBytes map

/-- `table_definition_len`. -/
def tableDefinitionLen (spec : TableDefinitionSpec) : Except TableDefinitionWriteError ℕ :=
  definitionLen spec.columns (spec.indexes.map LogicalIndexSpec.name) spec.physicalIndexes.length
    spec.longValueMaps.length

/-- `encode_table_definition` into an output of `available` bytes. -/
def encodeTableDefinition (spec : TableDefinitionSpec) (available : ℕ) (encodingContext : Bytes 4) :
    Except TableDefinitionWriteError (List UInt8) := do
  let variableCount ← validateDefinition spec
  let length ← tableDefinitionLen spec
  refuseIf (available < length) (.outputTooSmall length available)
  refuseIf (¬length < 2 ^ 32) (.definitionTooLong length)
  let header ← writeHeader spec variableCount length
  let (records, _) ← spec.columns.zipIdx.foldlM (writeColumn spec encodingContext)
    ([], { nextFixedOffset := 0, variablesSeen := 0 })
  let columnNames ← spec.columns.mapM fun column => writeName column.name
  let physical ← spec.physicalIndexes.mapM writePhysicalRecord
  let logical ← spec.indexes.mapM writeLogicalRecord
  let indexNames ← spec.indexes.mapM fun index => writeName index.name
  let groups ← spec.longValueMaps.mapM writeMapGroup
  return header.val ++ ((spec.physicalIndexes.flatMap fun index => (physicalPrefix index).val) ++
    (records.flatMap Subtype.val ++ (columnNames.flatten ++ (physical.flatMap Subtype.val ++
      (logical.flatMap Subtype.val ++ (indexNames.flatten ++ (groups.flatMap Subtype.val ++
        terminator)))))))

end Jet3
