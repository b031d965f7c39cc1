import Jet3.Create.Columns
import Jet3.Definition.Index
import Jet3.Definition.LongValueMap

/-!
# Encoding columns and indexes

The records of a table definition, written from typed requests. A column's placement is derived from
the columns before it: fixed columns follow each other, and variable columns are numbered.
-/

namespace Jet3

open Outcome

/-- A stored name has one length byte. -/
def maxNameLen : ℕ := 255
/-- The last page a locator of three bytes can name. -/
def maxU24Page : ℕ := 0x00ffffff

/-- The system column-record classes. -/
inductive SystemColumnClassSpec where
  | variable
  | fixed
  | binary
  deriving DecidableEq, Repr

/-- The physical-index flag values the writer admits. -/
inductive PhysicalIndexFlagsSpec where
  | ordinary
  | unique
  | ignoreNulls
  | uniqueIgnoreNulls
  | systemUninterpreted
  | required
  | uniqueRequired
  deriving DecidableEq, Repr

/-- The stored flags. -/
def PhysicalIndexFlagsSpec.raw : PhysicalIndexFlagsSpec → UInt8
  | ordinary => 0
  | unique => 1
  | ignoreNulls | systemUninterpreted => 2
  | uniqueIgnoreNulls => 3
  | required => 8
  | uniqueRequired => 9

/-- A key column to write. -/
structure IndexFieldSpec where
  column : UInt16
  direction : IndexDirection
  deriving DecidableEq, Repr

/-- A physical index to write. -/
structure PhysicalIndexSpec where
  fields : List IndexFieldSpec
  usageMapPage : PageNumber
  usageMapRow : UInt8
  root : PageNumber
  flags : PhysicalIndexFlagsSpec
  entryCount : UInt32
  deriving DecidableEq, Repr

/-- The relationship of an index to write. -/
structure RelationshipSpec where
  side : RelationshipSide
  relatedTable : PageNumber
  rawSelector : UInt32
  relationOrdinal : UInt32
  cascadeUpdates : Bool
  cascadeDeletes : Bool
  deriving DecidableEq, Repr

/-- What a logical index to write is for. -/
inductive LogicalIndexKindSpec where
  | ordinary
  | primary
  | relationship (reference : RelationshipSpec)
  deriving DecidableEq, Repr

/-- A logical index to write. -/
structure LogicalIndexSpec where
  name : List UInt8
  physicalIndex : UInt16
  kind : LogicalIndexKindSpec
  deriving DecidableEq, Repr

/-- Why a definition cannot be written. -/
inductive TableDefinitionWriteError where
  | tooManyColumns (count maximum : ℕ)
  | tooManyIndexes (role : String) (count : ℕ)
  | tooManyLongValueMaps (count maximum : ℕ)
  | emptyName (role : String) (ordinal : ℕ)
  | nameTooLong (role : String) (ordinal length maximum : ℕ)
  | duplicateName (role : String) (ordinal : ℕ)
  | invalidSystemColumnClassCount (kind : TableDefinitionKind) (count expected : ℕ)
  | invalidSystemColumnClass (ordinal : ℕ) (systemClass : Option SystemColumnClassSpec)
      (physicalType : ColumnPhysicalType) (storage : ColumnStorageKind)
  | fixedAreaTooLarge (ordinal : ℕ)
  | rowLayoutTooLarge (minimum maximum : ℕ)
  | emptyPhysicalIndex (physicalIndex : ℕ)
  | tooManyKeyFields (physicalIndex count maximum : ℕ)
  | invalidKeyColumn (physicalIndex ordinal columnCount : ℕ)
  | duplicateKeyColumn (physicalIndex ordinal : ℕ)
  | invalidPhysicalReference (physicalIndex : ℕ) (role : String) (page : PageNumber)
  | invalidMapReference (role : String) (page : PageNumber)
  | invalidPhysicalFlags (physicalIndex : ℕ) (kind : TableDefinitionKind)
      (flags : PhysicalIndexFlagsSpec)
  | invalidLongValueMapColumn (group column : ℕ)
  | missingLongValueMap (column : ℕ)
  | unsupportedKeyColumn (physicalIndex ordinal : ℕ) (physicalType : ColumnPhysicalType)
  | invalidPhysicalIndexOrdinal (logicalIndex ordinal physicalCount : ℕ)
  | duplicatePrimaryIndex
  | invalidPrimaryFlags (logicalIndex : ℕ) (raw : UInt8)
  | invalidRelationshipReference (logicalIndex : ℕ) (page : PageNumber)
  | unreferencedPhysicalIndex (physicalIndex : ℕ)
  | definitionTooLong (length : ℕ)
  | outputTooSmall (needed available : ℕ)
  | resource (source : Error)
  deriving DecidableEq, Repr

/-! ## Columns -/

/-- The derived row placement of one column. -/
structure ResolvedColumn where
  storage : ColumnStorageClass
  variableCounter : ℕ
  rawClass : UInt8
  deriving DecidableEq, Repr

/-- What the columns so far leave for the next one. -/
structure ColumnCursor where
  nextFixedOffset : ℕ
  variablesSeen : ℕ
  deriving DecidableEq, Repr

/-- The class of a variable column; a system one has to be given. -/
def variableColumnClass (kind : TableDefinitionKind) (systemClass : Option SystemColumnClassSpec)
    (physicalType : ColumnPhysicalType) : Option UInt8 :=
  match kind, systemClass with
  | .user, _ => some variableClass
  | .system, some .variable => some 0x12
  | .system, some .binary => if physicalType = .binary then some 0x32 else none
  | .system, _ => none

/-- The class of a fixed column; a system one has to be given. -/
def fixedColumnClass (kind : TableDefinitionKind) (systemClass : Option SystemColumnClassSpec)
    (autoIncrement : Bool) : Option UInt8 :=
  match kind, systemClass with
  | .system, some .fixed => some 0x13
  | .system, _ => none
  | .user, _ => some (if autoIncrement then autoIncrementClass else fixedClass)

/-- Derives the fixed offset or variable index of one column, and its record class. -/
def resolveColumn (ordinal : ℕ) (column : ColumnSpec) (kind : TableDefinitionKind)
    (systemClass : Option SystemColumnClassSpec) (cursor : ColumnCursor) :
    Except TableDefinitionWriteError (ResolvedColumn × ColumnCursor) := do
  let invalidSystemClass := TableDefinitionWriteError.invalidSystemColumnClass ordinal systemClass
    column.physicalType column.storage
  let autoIncrement : Bool := column.columnType = .autoIncrement
  refuseIf (kind = .system ∧ autoIncrement = true) invalidSystemClass
  match column.storage with
  | .variable =>
    refuseIf (¬cursor.variablesSeen + 1 < 2 ^ 16)
      (.resource (.arithmetic "advance variable column count"))
    let rawClass ← okOr (variableColumnClass kind systemClass column.physicalType)
      invalidSystemClass
    return ({ storage := .variable cursor.variablesSeen, variableCounter := cursor.variablesSeen
              rawClass },
      { cursor with variablesSeen := cursor.variablesSeen + 1 })
  | .fixed =>
    if column.physicalType = .boolean then
      let rawClass ← okOr (fixedColumnClass kind systemClass autoIncrement) invalidSystemClass
      return ({ storage := .fixed 0, variableCounter := cursor.variablesSeen, rawClass }, cursor)
    else
      refuseIf (¬cursor.nextFixedOffset + column.size < 2 ^ 16) (.fixedAreaTooLarge ordinal)
      let rawClass ← okOr (fixedColumnClass kind systemClass autoIncrement) invalidSystemClass
      return ({ storage := .fixed cursor.nextFixedOffset, variableCounter := cursor.variablesSeen
                rawClass },
        { cursor with nextFixedOffset := cursor.nextFixedOffset + column.size })

/-- The fixed offset a record stores; the field of a variable column has no meaning. -/
def ColumnStorageClass.storedOffset : ColumnStorageClass → ℕ
  | .fixed offset => offset
  | .variable _ => 0

/-- `write_column_record`: one 18-byte record. -/
def writeColumnRecord (ordinal : ℕ) (column : ColumnSpec) (resolved : ResolvedColumn)
    (kind : TableDefinitionKind) (encodingContext : Bytes 4) : Bytes columnRecordLen :=
  let position := match kind with
    | .user => ordinal
    | .system => 0
  ⟨[column.physicalType.raw] ++ leBytes 2 ordinal ++ leBytes 2 resolved.variableCounter ++
      leBytes 2 position ++ leBytes 2 kind.columnConstant ++ encodingContext.val ++
      [resolved.rawClass] ++ leBytes 2 resolved.storage.storedOffset ++ leBytes 2 column.size, by
    simp [encodingContext.property, columnRecordLen]⟩

/-- `write_name`: the length of a name and its bytes. -/
def writeName (name : List UInt8) : Except TableDefinitionWriteError (List UInt8) := do
  refuseIf (¬name.length < 2 ^ 8) (.resource (.integerConversion name.length "u8"))
  return Reader.nameBytes name

/-! ## Physical indexes -/

/-- One key field of a physical index, checked against the fields before it. -/
def validateKeyField (physicalIndex : ℕ) (columns : List ColumnSpec) (fields : List IndexFieldSpec)
    (entry : IndexFieldSpec × ℕ) : Except TableDefinitionWriteError Unit := do
  let ordinal := entry.1.column.toNat
  let column ← okOr columns[ordinal]? (.invalidKeyColumn physicalIndex ordinal columns.length)
  refuseIf (column.physicalType.isLongValue = true)
    (.unsupportedKeyColumn physicalIndex ordinal column.physicalType)
  refuseIf (∃ earlier ∈ fields.take entry.2, earlier.column = entry.1.column)
    (.duplicateKeyColumn physicalIndex ordinal)

/-- A reference of a physical index: neither null nor too large for its field. -/
def validatePhysicalReference (physicalIndex : ℕ) (role : String) (page : PageNumber)
    (maximum : ℕ) :
    Except TableDefinitionWriteError Unit :=
  refuseIf (page = 0 ∨ page > maximum) (.invalidPhysicalReference physicalIndex role page)

/-- `validate_physical_index`. -/
def validatePhysicalIndex (physicalIndex : ℕ) (index : PhysicalIndexSpec)
    (columns : List ColumnSpec) : Except TableDefinitionWriteError Unit := do
  refuseIf (¬columns.length < 2 ^ 16) (.tooManyColumns columns.length 255)
  refuseIf (index.fields = []) (.emptyPhysicalIndex physicalIndex)
  refuseIf (index.fields.length > keySlotCount)
    (.tooManyKeyFields physicalIndex index.fields.length keySlotCount)
  forM index.fields.zipIdx (validateKeyField physicalIndex columns index.fields)
  validatePhysicalReference physicalIndex "usage map" index.usageMapPage maxU24Page
  validatePhysicalReference physicalIndex "index root" index.root (2 ^ 32 - 1)

/-- The stored form of a key slot; the direction of an unused slot has no meaning. -/
def keySlotBytes : Option IndexFieldSpec → Bytes keySlotLen
  | some field => ⟨leBytes 2 field.column.toNat ++
      [match field.direction with
        | .descending => 0
        | .ascending => 1], rfl⟩
  | none => ⟨leBytes 2 nullColumnOrdinal ++ [0], rfl⟩

/-- The key slots of an index, in their order. -/
def keySlots (fields : List IndexFieldSpec) : List UInt8 :=
  (List.range keySlotCount).flatMap fun slot => (keySlotBytes fields[slot]?).val

@[simp]
theorem length_keySlots (fields : List IndexFieldSpec) :
    (keySlots fields).length = keySlotCount * keySlotLen := by
  simp [keySlots, List.length_flatMap, (keySlotBytes _).property]

/-- The 39 bytes of a physical index. -/
def physicalRecord (index : PhysicalIndexSpec) : Bytes physicalRecordLen :=
  ⟨keySlots index.fields ++ ([index.usageMapRow] ++ leBytes 3 index.usageMapPage ++
      leBytes 4 index.root ++ [index.flags.raw]), by
    simp [keySlotCount, keySlotLen, physicalRecordLen]⟩

/-- `write_physical_record`: one 39-byte record. -/
def writePhysicalRecord (index : PhysicalIndexSpec) :
    Except TableDefinitionWriteError (Bytes physicalRecordLen) := do
  refuseIf (¬index.usageMapPage < 2 ^ 32) (.resource (.integerConversion index.usageMapPage "u24"))
  refuseIf (¬index.root < 2 ^ 32) (.resource (.integerConversion index.root "u32"))
  return physicalRecord index

/-! ## Logical indexes -/

/-- The stored form of a flag. -/
def boolByte (b : Bool) : UInt8 :=
  if b then 1 else 0

/-- A record no relationship enforces: both words name the physical index. -/
def ordinaryRecord (physicalIndex : ℕ) (logicalClass : UInt8) : Bytes logicalRecordLen :=
  ⟨leBytes 4 physicalIndex ++ leBytes 4 physicalIndex ++ [0] ++ leBytes 4 0xffffffff ++
    leBytes 4 0 ++
    [4, 4] ++ [logicalClass], rfl⟩

/-- The stored form of a side. -/
def RelationshipSide.marker : RelationshipSide → UInt8
  | primaryTable => 1
  | foreignTable => 2

/-- The record of an index that enforces a relationship. -/
def relationshipRecord (physicalIndex : ℕ) (reference : RelationshipSpec) :
    Bytes logicalRecordLen :=
  ⟨leBytes 4 reference.rawSelector.toNat ++ leBytes 4 physicalIndex ++ [reference.side.marker] ++
    leBytes 4 reference.relationOrdinal.toNat ++ leBytes 4 reference.relatedTable ++
    [boolByte reference.cascadeUpdates, boolByte reference.cascadeDeletes] ++ [2], rfl⟩

/-- The 20 bytes of a logical index. -/
def logicalRecord (index : LogicalIndexSpec) : Bytes logicalRecordLen :=
  match index.kind with
  | .ordinary => ordinaryRecord index.physicalIndex.toNat 0
  | .primary => ordinaryRecord index.physicalIndex.toNat 1
  | .relationship reference => relationshipRecord index.physicalIndex.toNat reference

/-- The table a logical index references; no other kind than a relationship names one. -/
def LogicalIndexKindSpec.relatedTable : LogicalIndexKindSpec → PageNumber
  | .relationship reference => reference.relatedTable
  | _ => 0

/-- `write_logical_record`: one 20-byte record. -/
def writeLogicalRecord (index : LogicalIndexSpec) :
    Except TableDefinitionWriteError (Bytes logicalRecordLen) := do
  refuseIf (¬index.kind.relatedTable < 2 ^ 32)
    (.resource (.integerConversion index.kind.relatedTable "u32"))
  return logicalRecord index

end Jet3
