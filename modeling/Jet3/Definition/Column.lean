import Jet3.Definition.Error
import Jet3.Library.Outcome
import Jet3.Library.Reader

/-!
# Column definitions

The decoder of the column records and column names of a table definition. A record is checked
against the ones before it: storage ordinals increase, variable counters follow the variable
columns, and no two live fixed columns overlap.

A definition is sparse when columns were dropped: its storage ordinals then outnumber its columns,
and the layout checks of a dense definition are relaxed to bounds.
-/

namespace Jet3

open Outcome

/-- The bits of a class byte that say how a column is stored. -/
def storageClassMask : UInt8 := 0x07
/-- A column of the variable area. -/
def variableClass : UInt8 := 2
/-- A column of the fixed area. -/
def fixedClass : UInt8 := 3
/-- A column of the fixed area whose numbers the engine gives out. -/
def autoIncrementClass : UInt8 := 7

/-- Sort-order LCID then code page, both little-endian. -/
def encodingContexts : List (List UInt8) :=
  [[0x09, 0x04, 0xe4, 0x04], [0x1d, 0x04, 0xe4, 0x04], [0x0a, 0x04, 0xe4, 0x04],
    [0x13, 0x04, 0xe4, 0x04], [0x19, 0x04, 0xe3, 0x04], [0x08, 0x04, 0xe5, 0x04]]

/-- The encoding context of the general sort order, the first of the six. -/
def generalContext : Bytes 4 := ⟨[0x09, 0x04, 0xe4, 0x04], rfl⟩

namespace TableDefinitionKind

/-- The sourced constant of every column record. -/
def columnConstant : TableDefinitionKind → ℕ
  | user => 1
  | system => 0

/-- The class bytes a column record may carry. -/
def columnClasses : TableDefinitionKind → List UInt8
  | user => [variableClass, fixedClass, autoIncrementClass]
  | system => [0x12, 0x13, 0x32]

end TableDefinitionKind

/-- A decoded column record; its name follows the records. -/
structure RawColumn where
  ordinal : ℕ
  physicalType : ColumnPhysicalType
  storage : ColumnStorageClass
  size : ℕ
  autoIncrement : Bool
  rawVariableCounter : ℕ
  sourcedConstant : ℕ
  rawEncodingContext : List UInt8
  rawClassFlags : UInt8
  rawRecord : Bytes columnRecordLen
  deriving DecidableEq, Repr

/-- A column record with its name. -/
structure ColumnDefinition extends RawColumn where
  name : List UInt8
  deriving DecidableEq, Repr

/-- The stable physical identity used by rows, indexes, and map groups. -/
def RawColumn.storageOrdinal (column : RawColumn) : ℕ :=
  leAt column.rawRecord.val 1 2

/-- The retained display-position word, independent of storage order. -/
def RawColumn.displayPosition (column : RawColumn) : ℕ :=
  leAt column.rawRecord.val 5 2

/-- The counts a column record is checked against. -/
structure ColumnContext where
  kind : TableDefinitionKind
  columnCount : ℕ
  storageCount : ℕ
  variableCount : ℕ

/-- Columns were dropped. -/
def ColumnContext.sparse (context : ColumnContext) : Bool :=
  context.storageCount ≠ context.columnCount

/-- The records decoded so far. -/
structure ColumnScan where
  columns : List RawColumn
  variablesSeen : ℕ
  nextFixedOffset : ℕ
  previousStorage : Option ℕ

/-- The type of a stored code. -/
def decodeType (ordinal : ℕ) (raw : UInt8) : Except TableDefinitionError ColumnPhysicalType :=
  if raw = 1 then .ok .boolean
  else if raw = 2 then .ok .byte
  else if raw = 3 then .ok .integer
  else if raw = 4 then .ok .long
  else if raw = 5 then .ok .currency
  else if raw = 6 then .ok .single
  else if raw = 7 then .ok .double
  else if raw = 8 then .ok .dateTime
  else if raw = 9 then .ok .binary
  else if raw = 10 then .ok .text
  else if raw = 11 then .ok .longBinary
  else if raw = 12 then .ok .memo
  else if raw = 15 then .ok .guid
  else .error (.unsupportedPhysicalType ordinal raw)

/-- The stated size is one the type can have. -/
def validateSize (ordinal : ℕ) (physicalType : ColumnPhysicalType) (size : ℕ) :
    Except TableDefinitionError Unit :=
  refuseIf (¬physicalType.validSize size) (.unsupportedColumnSize ordinal physicalType size)

/-- Two fixed ranges that share a byte. -/
def fixedOverlap (offset size start stop : ℕ) : Bool :=
  start < offset + size ∧ offset < stop

/-- A fixed column of the records before that shares a byte with the range from `start` to
`stop`. -/
def RawColumn.meets (start stop : ℕ) (column : RawColumn) : Bool :=
  match column.storage with
  | .fixed offset => column.physicalType ≠ .boolean ∧ fixedOverlap offset column.size start stop
  | .variable _ => false

/-- The fields of a record before its storage class: its ordinal, type and size. -/
structure RecordFields where
  ordinal : ℕ
  record : Bytes columnRecordLen
  physicalType : ColumnPhysicalType
  size : ℕ
  variableCounter : ℕ
  rawClass : UInt8

/-- Stores a column through a variable-offset entry. -/
def decodeVariable (context : ColumnContext) (scan : ColumnScan) (fields : RecordFields) :
    Except TableDefinitionError (ColumnStorageClass × ColumnScan) := do
  refuseIf (¬fields.physicalType.isVariable)
    (.unsupportedColumnClass fields.ordinal fields.physicalType fields.rawClass)
  refuseIf (fields.variableCounter < scan.variablesSeen ∨
      fields.variableCounter ≥ context.variableCount)
    (.invalidVariableCounter fields.ordinal fields.variableCounter scan.variablesSeen)
  return (.variable fields.variableCounter,
    { scan with variablesSeen := fields.variableCounter + 1 })

/-- The fixed range of a column that is no Boolean follows the dense layout, or meets no live
one. -/
def checkFixedRange (context : ColumnContext) (scan : ColumnScan) (fields : RecordFields)
    (offset : ℕ) : Except TableDefinitionError ColumnScan := do
  refuseIf (¬context.sparse ∧ offset ≠ scan.nextFixedOffset)
    (.invalidFixedOffset fields.ordinal offset scan.nextFixedOffset)
  let stop := offset + fields.size
  refuseIf (¬stop < 2 ^ 16) (.resource (.arithmetic "advance fixed column offset"))
  refuseIf (context.sparse ∧ scan.columns.any (RawColumn.meets offset stop))
    (.invalidFixedOffset fields.ordinal offset scan.nextFixedOffset)
  return { scan with nextFixedOffset := max scan.nextFixedOffset stop }

/-- Stores a column at a fixed offset. -/
def decodeFixed (context : ColumnContext) (scan : ColumnScan) (fields : RecordFields) :
    Except TableDefinitionError (ColumnStorageClass × ColumnScan) := do
  refuseIf (fields.rawClass = autoIncrementClass ∧ fields.physicalType ≠ .long)
    (.unsupportedColumnClass fields.ordinal fields.physicalType fields.rawClass)
  refuseIf fields.physicalType.neverFixed
    (.unsupportedColumnClass fields.ordinal fields.physicalType fields.rawClass)
  let offset := leAt fields.record.val 14 2
  if fields.physicalType = .boolean then return (.fixed offset, scan)
  else
    let scan ← checkFixedRange context scan fields offset
    return (.fixed offset, scan)

/-- The storage class of a column record, in the area the columns before it have reached. -/
def decodeStorage (context : ColumnContext) (scan : ColumnScan) (fields : RecordFields) :
    Except TableDefinitionError (ColumnStorageClass × ColumnScan) :=
  let storageClass := fields.rawClass &&& storageClassMask
  if storageClass = variableClass then decodeVariable context scan fields
  else if storageClass = fixedClass ∨ storageClass = autoIncrementClass then
    decodeFixed context scan fields
  else .error (.unsupportedColumnClass fields.ordinal fields.physicalType fields.rawClass)

/-- The ordinal and the counter of a record follow the ones before it. -/
def checkOrder (context : ColumnContext) (scan : ColumnScan)
    (ordinal storage counter position : ℕ) :
    Except TableDefinitionError Unit := do
  refuseIf (storage ≥ context.storageCount ∨
    scan.previousStorage.any (fun previous => storage ≤ previous) ∨
      (context.kind = .system ∧ position ≠ 0))
    (.invalidColumnOrdinal ordinal storage position)
  refuseIf (counter < scan.variablesSeen ∨ counter > context.variableCount ∨ counter > storage ∨
      (¬context.sparse ∧ counter ≠ scan.variablesSeen))
    (.invalidVariableCounter ordinal counter scan.variablesSeen)

/-- Decodes one column record. -/
def decodeRecord (context : ColumnContext) (ordinal : ℕ) (record : Bytes columnRecordLen)
    (scan : ColumnScan) : Except TableDefinitionError ColumnScan := do
  let storage := leAt record.val 1 2
  let counter := leAt record.val 3 2
  checkOrder context scan ordinal storage counter (leAt record.val 5 2)
  let constant := leAt record.val 7 2
  refuseIf (constant ≠ context.kind.columnConstant) (.invalidColumnConstant ordinal constant)
  let encoding := (record.val.drop 9).take 4
  refuseIf (encoding ∉ encodingContexts) (.invalidColumnEncodingContext ordinal encoding)
  let physicalType ← decodeType ordinal (byteAt record.val 0)
  let size := leAt record.val 16 2
  validateSize ordinal physicalType size
  let rawClass := byteAt record.val 13
  refuseIf (rawClass ∉ context.kind.columnClasses)
    (.unsupportedColumnClass ordinal physicalType rawClass)
  let (storageClass, scan') ← decodeStorage context scan
    { ordinal, record, physicalType, size, variableCounter := counter, rawClass }
  let column : RawColumn :=
    { ordinal, physicalType, storage := storageClass, size
      autoIncrement := rawClass = autoIncrementClass
      rawVariableCounter := counter, sourcedConstant := constant, rawEncodingContext := encoding
      rawClassFlags := rawClass, rawRecord := record }
  return { scan' with columns := scan.columns ++ [column], previousStorage := some storage }

/-- One iteration over the column records. -/
def decodeNextRecord (context : ColumnContext) (total : ℕ) (state : ColumnScan × List UInt8)
    (ordinal : ℕ) : Except TableDefinitionError (ColumnScan × List UInt8) := do
  let (record, rest) ← Reader.take .truncated total columnRecordLen state.2
  let scan ← decodeRecord context ordinal record state.1
  return (scan, rest)

/-- One iteration over the column names. -/
def decodeColumnName (total : ℕ) (state : List ColumnDefinition × List UInt8) (raw : RawColumn) :
    Except TableDefinitionError (List ColumnDefinition × List UInt8) := do
  let (name, rest) ← Reader.takeName .truncated total state.2
  let duplicate : Bool := state.1.any fun column => column.name = name
  refuseIf (name = [] ∨ duplicate = true) (.invalidColumnName raw.ordinal duplicate)
  return (state.1 ++ [{ raw with name }], rest)

/-- `decode_columns`: the records, then the names. Returns what follows them. -/
def decodeColumns (context : ColumnContext) (total : ℕ) (rest : List UInt8) :
    Except TableDefinitionError (List ColumnDefinition × List UInt8) := do
  let start : ColumnScan :=
    { columns := [], variablesSeen := 0, nextFixedOffset := 0, previousStorage := none }
  let (scan, rest) ← (List.range context.columnCount).foldlM (decodeNextRecord context total)
    (start, rest)
  refuseIf (¬context.sparse ∧ scan.variablesSeen ≠ context.variableCount)
    (.inconsistentVariableCount context.variableCount scan.variablesSeen)
  scan.columns.foldlM (decodeColumnName total) ([], rest)

end Jet3
