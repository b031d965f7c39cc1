import Jet3.Definition.Column
import Jet3.Library.Bitmap
import Jet3.Library.Bytes
import Jet3.Library.Reader
import Jet3.Row.Layout
import Jet3.Row.Value

/-!
# Encoding rows

The encoder of one row. `rowShape` checks the columns and the values and sizes the row; `writeRow`
then writes it.

* `jumpEntry` is one jump byte of a trailer: the first boundary at or above a threshold;
* `writeTrailer` is what follows the variable fields.
-/

namespace Jet3

open Outcome

/-- The one-byte column count of a row allows no more. -/
def rowMaxColumnCount : ℕ := 255

/-- Every long field begins with a header. -/
def longValueHeaderLen : ℕ := 12

/-- A null map has at most a bit for each of 255 columns. -/
def nullMapMaxLen : ℕ := 32

/-- Row placement of one column. -/
structure RowColumnLayout where
  physicalType : ColumnPhysicalType
  storage : ColumnStorageClass
  size : ℕ
  storageOrdinal : Option ℕ
  deriving DecidableEq, Repr

/-- The placement of a defined column. -/
def ColumnDefinition.rowLayout (column : ColumnDefinition) : RowColumnLayout :=
  { physicalType := column.physicalType, storage := column.storage, size := column.size
    storageOrdinal := some column.storageOrdinal }

/-- Why values cannot be written as a row. -/
inductive RowWriteError where
  | tooManyColumns (count maximum : ℕ)
  | invalidStorageOrdinal (ordinal storageOrdinal : ℕ)
  | valueCountMismatch (expected actual : ℕ)
  | typeMismatch (ordinal : ℕ) (physicalType : ColumnPhysicalType)
  | invalidWidth (ordinal : ℕ) (physicalType : ColumnPhysicalType) (expected actual : ℕ)
  | invalidColumnSize (ordinal : ℕ) (physicalType : ColumnPhysicalType) (size : ℕ)
  | invalidStorage (ordinal : ℕ) (physicalType : ColumnPhysicalType)
  | invalidFixedOffset (ordinal offset expected : ℕ)
  | invalidVariableIndex (ordinal index variableCount : ℕ)
  | rowTooLong (length maximum : ℕ)
  | outputTooSmall (needed available : ℕ)
  | arithmetic (operation : String)
  deriving DecidableEq, Repr

/-! ## Values -/

/-- Values of the types that are stored in full at a fixed offset. -/
def RowValue.fits (physicalType : ColumnPhysicalType) : RowValue → Bool
  | .null => true
  | .byte _ => physicalType = .byte
  | .integer _ => physicalType = .integer
  | .long _ => physicalType = .long
  | .currency _ => physicalType = .currency
  | .single _ => physicalType = .single
  | .double _ => physicalType = .double
  | .dateTime _ => physicalType = .dateTime
  | .guid _ => physicalType = .guid
  | _ => false

/-- Whether a column is in the fixed area. -/
def ColumnStorageClass.isFixed : ColumnStorageClass → Bool
  | .fixed _ => true
  | .variable _ => false

/-- The length of a value that may vary, or has to match exactly. -/
def checkWidth (ordinal : ℕ) (physicalType : ColumnPhysicalType) (actual expected : ℕ)
    (exact : Bool) : Except RowWriteError ℕ := do
  refuseIf ((exact ∧ actual ≠ expected) ∨ (¬exact ∧ actual > expected))
    (.invalidWidth ordinal physicalType expected actual)
  return actual

/-- `value_width`: checks the value against the column and returns its physical width. -/
def valueWidth (ordinal : ℕ) (column : RowColumnLayout) (value : RowValue) :
    Except RowWriteError ℕ :=
  let fixed := column.storage.isFixed
  let storageError := RowWriteError.invalidStorage ordinal column.physicalType
  let mismatch := RowWriteError.typeMismatch ordinal column.physicalType
  match column.physicalType with
  | .boolean =>
    if fixed then
      match value with
      | .null | .boolean _ => .ok 0
      | _ => .error mismatch
    else .error storageError
  | .text =>
    match value with
    | .null => .ok 0
    | .text bytes => checkWidth ordinal column.physicalType bytes.length column.size fixed
    | _ => .error mismatch
  | .binary =>
    if fixed then .error storageError
    else
      match value with
      | .null => .ok 0
      | .binary bytes => checkWidth ordinal column.physicalType bytes.length column.size false
      | _ => .error mismatch
  | .longBinary | .memo =>
    if fixed then .error storageError
    else
      match value with
      | .null => .ok 0
      | .longValue bytes =>
        if bytes.length < longValueHeaderLen then
          .error (.invalidWidth ordinal column.physicalType longValueHeaderLen bytes.length)
        else .ok bytes.length
      | _ => .error mismatch
  | _ =>
    if ¬fixed then .error storageError
    else if value.fits column.physicalType then .ok column.size
    else .error mismatch

/-! ## Shapes -/

/-- The lengths of the parts of a row, fixed before its values are written. -/
structure RowShape where
  columnCount : ℕ
  fixedSize : ℕ
  variableCount : ℕ
  nullLen : ℕ
  jumps : ℕ
  length : ℕ
  deriving DecidableEq, Repr

/-- `validate_column_layout`: returns where the fixed columns so far end. -/
def RowColumnLayout.validateColumnLayout (ordinal : ℕ) (column : RowColumnLayout)
    (nextFixedOffset : ℕ) : Except RowWriteError ℕ := do
  refuseIf (¬column.physicalType.validSize column.size)
    (.invalidColumnSize ordinal column.physicalType column.size)
  match column.storage with
  | .fixed offset =>
    refuseIf column.physicalType.neverFixed (.invalidStorage ordinal column.physicalType)
    -- a Boolean occupies only its presence bit, and may name the start of the fixed area
    let booleanPlaceholder : Bool := column.physicalType = .boolean ∧ offset = 0
    refuseIf (column.storageOrdinal.isNone ∧ offset ≠ nextFixedOffset ∧ ¬booleanPlaceholder)
      (.invalidFixedOffset ordinal offset nextFixedOffset)
    if column.physicalType ≠ .boolean then
      refuseIf (¬offset + column.size < 2 ^ 16) (.arithmetic "advance encoded-row fixed offset")
      return max nextFixedOffset (offset + column.size)
    else return nextFixedOffset
  | .variable _ =>
    refuseIf (¬column.physicalType.isVariable) (.invalidStorage ordinal column.physicalType)
    return nextFixedOffset

/-- A fixed column whose bytes meet the range from `start` to `stop`. -/
def RowColumnLayout.meets (start stop : ℕ) (column : RowColumnLayout) : Bool :=
  match column.storage with
  | .fixed offset => column.physicalType ≠ .boolean ∧ fixedOverlap offset column.size start stop
  | .variable _ => false

/-- What the columns so far come to. -/
structure ShapeScan where
  columnCount : ℕ
  nextFixedOffset : ℕ
  variableCount : ℕ
  variableBytes : ℕ
  seenIndexes : List ℕ

/-- A retained fixed column meets none before it. -/
def checkFixedOverlap (columns : List RowColumnLayout) (ordinal : ℕ) (column : RowColumnLayout)
    (nextFixedOffset : ℕ) : Except RowWriteError Unit :=
  match column.storage with
  | .fixed offset =>
    refuseIf (column.physicalType ≠ .boolean ∧ column.storageOrdinal.isSome ∧
        (columns.take ordinal).any (RowColumnLayout.meets offset (offset + column.size)))
      (.invalidFixedOffset ordinal offset nextFixedOffset)
  | .variable _ => .ok ()

/-- One iteration over the columns and values. -/
def shapeStep (columns : List RowColumnLayout) (retained : Bool) (scan : ShapeScan)
    (entry : (RowColumnLayout × RowValue) × ℕ) : Except RowWriteError ShapeScan := do
  let ((column, value), ordinal) := entry
  let storageOrdinal := column.storageOrdinal.getD ordinal
  refuseIf (storageOrdinal ≥ rowMaxColumnCount ∨ storageOrdinal < scan.columnCount)
    (.invalidStorageOrdinal ordinal storageOrdinal)
  checkFixedOverlap columns ordinal column scan.nextFixedOffset
  let nextFixedOffset ← RowColumnLayout.validateColumnLayout ordinal column scan.nextFixedOffset
  let width ← valueWidth ordinal column value
  let scan := { scan with columnCount := storageOrdinal + 1, nextFixedOffset }
  match column.storage with
  | .fixed _ => return scan
  | .variable index =>
    refuseIf (index ≥ rowMaxColumnCount ∨ index ∈ scan.seenIndexes)
      (.invalidVariableIndex ordinal index columns.length)
    let variableCount :=
      if retained then max scan.variableCount (index + 1) else scan.variableCount + 1
    return { scan with variableCount, variableBytes := scan.variableBytes + width
                       seenIndexes := index :: scan.seenIndexes }

/-- Any index at or beyond the count leaves a hole. -/
def checkIndex (variableCount : ℕ) (entry : RowColumnLayout × ℕ) : Except RowWriteError Unit :=
  match entry.1.storage with
  | .fixed _ => .ok ()
  | .variable index =>
    refuseIf (index ≥ variableCount) (.invalidVariableIndex entry.2 index variableCount)

/-- `validate` of a row to write. -/
def rowShape (columns : List RowColumnLayout) (values : List RowValue) :
    Except RowWriteError RowShape := do
  refuseIf (columns.length > rowMaxColumnCount) (.tooManyColumns columns.length rowMaxColumnCount)
  refuseIf (values.length ≠ columns.length) (.valueCountMismatch columns.length values.length)
  let retained := columns.all fun column => column.storageOrdinal.isSome
  let scan ← (columns.zip values).zipIdx.foldlM (shapeStep columns retained)
    { columnCount := 0, nextFixedOffset := 0, variableCount := 0, variableBytes := 0
      seenIndexes := [] }
  -- rows without variable columns keep a fixed area of two bytes
  let fixedSize := max scan.nextFixedOffset (if scan.variableCount = 0 then 2 else 0)
  forM columns.zipIdx (checkIndex scan.variableCount)
  let nullLen := (scan.columnCount + 7) / 8
  let counted := 1 + fixedSize + scan.variableBytes + nullLen
  let withoutJumps := if scan.variableCount > 0 then counted + scan.variableCount + 2 else counted
  let jumps := if scan.variableCount = 0 then 0 else jumpCount withoutJumps
  let length := withoutJumps + jumps
  refuseIf (length > maximumLength scan.variableCount)
    (.rowTooLong length (maximumLength scan.variableCount))
  return { columnCount := scan.columnCount, fixedSize, variableCount := scan.variableCount, nullLen
           jumps, length }

/-! ## Writing -/

/-- Whether a value sets the presence bit of its column. -/
def RowValue.present (physicalType : ColumnPhysicalType) (value : RowValue) : Bool :=
  match physicalType, value with
  | .boolean, .boolean bit => bit
  | .binary, .binary [] => false
  | _, .null => false
  | .boolean, _ => false
  | _, _ => true

/-- A GUID is stored with its first three groups little-endian. -/
def guidBytes (d : Vector UInt8 16) : List UInt8 :=
  [d[3], d[2], d[1], d[0], d[5], d[4], d[7], d[6], d[8], d[9], d[10], d[11], d[12], d[13], d[14],
    d[15]]

/-- `write_scalar`. -/
def RowValue.scalarBytes : RowValue → List UInt8
  | .byte raw => [raw]
  | .integer raw => leBytes 2 raw.toUInt16.toNat
  | .long raw => leBytes 4 raw.toUInt32.toNat
  | .currency scaled => leBytes 8 scaled.toUInt64.toNat
  | .single bits => leBytes 4 bits.toNat
  | .double bits | .dateTime bits => leBytes 8 bits.toNat
  | .text bytes => bytes
  | .guid d => guidBytes d
  | _ => []

/-- The bytes of a variable field. -/
def RowValue.variableBytes : RowValue → List UInt8
  | .text bytes | .binary bytes | .longValue bytes => bytes
  | _ => []

/-- Writes a present fixed field; bytes of null fields stay zero. -/
def writeFixedField (row : List UInt8) (field : RowColumnLayout × RowValue) : List UInt8 :=
  match field.1.storage with
  | .fixed offset =>
    if field.2.present field.1.physicalType ∧ field.1.physicalType ≠ .boolean then
      overwrite row (1 + offset) field.2.scalarBytes
    else row
  | .variable _ => row

/-- The column count and the fixed area. -/
def writeFixed (fields : List (RowColumnLayout × RowValue)) (shape : RowShape) : List UInt8 :=
  fields.foldl writeFixedField
    (UInt8.ofNat shape.columnCount :: List.replicate shape.fixedSize 0)

/-- Sets the presence bit of a field. -/
def markPresent (map : List UInt8) (entry : (RowColumnLayout × RowValue) × ℕ) : List UInt8 :=
  if entry.1.2.present entry.1.1.physicalType then
    Bitmap.put map (entry.1.1.storageOrdinal.getD entry.2) true
  else map

/-- The null map of the fields: the bit of each value that is present. -/
def nullMap (fields : List (RowColumnLayout × RowValue)) : List UInt8 :=
  fields.zipIdx.foldl markPresent (List.replicate nullMapMaxLen 0)

/-- Assigns the value of a variable column to its slot. -/
def setSlot (slots : List (Option RowValue)) (field : RowColumnLayout × RowValue) :
    List (Option RowValue) :=
  match field.1.storage with
  | .fixed _ => slots
  | .variable index => slots.set index (some field.2)

/-- The bytes of the variable fields. The slots of deleted columns are empty. -/
def variableFields (fields : List (RowColumnLayout × RowValue)) (variableCount : ℕ) :
    List (List UInt8) :=
  let slots := fields.foldl setSlot (List.replicate rowMaxColumnCount none)
  (List.range variableCount).map fun index => ((slots.getD index none).getD .null).variableBytes

/-- The boundaries of fields that follow each other from `start`. -/
def boundariesFrom (start : ℕ) : List (List UInt8) → List ℕ
  | [] => [start]
  | field :: fields => start :: boundariesFrom (start + field.length) fields

/-- The ordinal of the first boundary at or above a threshold. -/
def jumpEntry (boundaries : List ℕ) (block : ℕ) : UInt8 :=
  match boundaries.findIdx? fun boundary => boundary ≥ 256 * block with
  | none => 0xff
  | some ordinal => UInt8.ofNat ordinal

/-- Transition ordinals, from the highest threshold downward. -/
def jumpEntries (boundaries : List ℕ) (jumps : ℕ) : List UInt8 :=
  (List.range jumps).reverse.map fun block => jumpEntry boundaries (block + 1)

/-- The low bytes of the boundaries in reverse order, the jump bytes and the variable count. -/
def writeTrailer (boundaries : List ℕ) (jumps : ℕ) : List UInt8 :=
  boundaries.reverse.map (fun boundary => UInt8.ofNat (boundary % 256)) ++
    (jumpEntries boundaries jumps ++ [UInt8.ofNat (boundaries.length - 1)])

/-- `write_row`. -/
def writeRow (columns : List RowColumnLayout) (values : List RowValue) (shape : RowShape) :
    List UInt8 :=
  let fields := columns.zip values
  let stored := variableFields fields shape.variableCount
  let trailer :=
    if shape.variableCount > 0 then
      writeTrailer (boundariesFrom (1 + shape.fixedSize) stored) shape.jumps
    else []
  writeFixed fields shape ++ (stored.flatten ++ (trailer ++ (nullMap fields).take shape.nullLen))

/-- `encode_row` into an output of the given size. -/
def encodeRow (columns : List RowColumnLayout) (values : List RowValue) (available : ℕ) :
    Except RowWriteError (List UInt8) := do
  let shape ← rowShape columns values
  refuseIf (available < shape.length) (.outputTooSmall shape.length available)
  return writeRow columns values shape

end Jet3
