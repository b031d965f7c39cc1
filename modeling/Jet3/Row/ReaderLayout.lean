import Jet3.Definition.Table
import Jet3.Library.Bitmap
import Jet3.Row.Layout

/-!
# Row layouts

The layout of one stored row. A row begins with its column count and fixed fields; behind them lie
the variable fields, the low bytes of their boundaries in reverse order, the jump bytes, the
variable count, and the null bitmap at the very end. Everything behind the fixed fields is located
from the end.

Row bytes come from files that may hold anything. What would stop the program (an index outside a
slice, a subtraction below zero) is a failure of its own here, `RowFault.panic`, so that it can be
shown not to happen.
-/

namespace Jet3

open Outcome

/-- Why the layout of a row is refused. -/
inductive RowError where
  | columnCountNotRepresentable (count : ℕ)
  | columnCountMismatch (expected actual : ℕ)
  | rowTooShort (length minimum : ℕ)
  | invalidFixedBoundary (expected actual : ℕ)
  | variableCountMismatch (expected actual : ℕ)
  | rowTooLong (length maximum : ℕ)
  | unsupportedWideVariableOffsets (variableCount rowLength : ℕ)
  | invalidVariableBounds (index start stop dataEnd : ℕ)
  deriving DecidableEq, Repr

/-- How a computation over row bytes ends when it does not succeed. -/
inductive RowFault where
  | panic
  | error (source : RowError)
  deriving DecidableEq, Repr

/-! ## Checked access -/

/-- `row[index]`. -/
def indexByte (row : List UInt8) (index : ℕ) : Except RowFault UInt8 :=
  okOr row[index]? .panic

/-- `&row[start..stop]`. -/
def sliceBytes (row : List UInt8) (start stop : ℕ) : Except RowFault (List UInt8) :=
  if start ≤ stop ∧ stop ≤ row.length then .ok ((row.drop start).take (stop - start))
  else .error .panic

/-- `a - b`. -/
def subtract (a b : ℕ) : Except RowFault ℕ :=
  if b ≤ a then .ok (a - b) else .error .panic

/-- `a + 1` of a byte. -/
def succByte (a : ℕ) : Except RowFault ℕ :=
  if a + 1 < 256 then .ok (a + 1) else .error .panic

/-! ## Layouts -/

/-- Where a row has its parts. -/
structure RowLayout where
  fixedBoundary : ℕ
  offsetsStart : ℕ
  nullStart : ℕ
  columnCount : ℕ
  variableCount : ℕ
  jumps : ℕ
  deriving DecidableEq, Repr

/-- The byte of an unused jump entry. -/
def unusedJump : UInt8 := 0xff

namespace RowLayout

/-- Whether the row is new enough to store the column. -/
def storesColumn (layout : RowLayout) (ordinal : ℕ) : Bool :=
  ordinal < layout.columnCount

/-- The jump bytes between the boundaries and the null map. -/
def jumpBytes (layout : RowLayout) (row : List UInt8) : Except RowFault (List UInt8) :=
  let start := layout.offsetsStart + layout.variableCount + 1
  sliceBytes row start (start + layout.jumps)

/-- The boundary before variable field `ordinal`. -/
def boundary (layout : RowLayout) (row : List UInt8) (ordinal : ℕ) : Except RowFault ℕ :=
  if ordinal = 255 then .ok layout.offsetsStart
  else do
    let back ← subtract layout.variableCount ordinal
    let low ← indexByte row (layout.offsetsStart + back)
    let jumps ← layout.jumpBytes row
    let high := jumps.countP fun jump => jump ≠ unusedJump ∧ ordinal ≥ jump.toNat
    return low.toNat + 256 * high

/-- Whether the null map has the bit of the column. -/
def present (layout : RowLayout) (row : List UInt8) (storageOrdinal : ℕ) : Bool :=
  storageOrdinal < layout.columnCount ∧
    (row[layout.nullStart + storageOrdinal / 8]?).any fun raw =>
      Bitmap.byteTest raw (storageOrdinal % 8)

/-- The bytes of a variable column; a row that is too old has none. -/
def variableRange (layout : RowLayout) (row : List UInt8) (index : ℕ) :
    Except RowFault (Option (ℕ × ℕ)) :=
  if index < 256 ∧ index < layout.variableCount then do
    let start ← layout.boundary row index
    let next ← succByte index
    let stop ← layout.boundary row next
    return some (start, stop)
  else .ok none

end RowLayout

/-! ## What the definition requires of a row -/

/-- The columns a row of `columnCount` storage slots can hold. -/
def storedColumns (definition : TableDefinition) (columnCount : ℕ) : List ColumnDefinition :=
  definition.columns.filter fun column => column.storageOrdinal < columnCount

/-- The end of the fixed bytes of a column, relative to the start of the fixed area. -/
def ColumnDefinition.fixedEnd (column : ColumnDefinition) : Option ℕ :=
  match column.storage with
  | .fixed offset => if column.physicalType ≠ .boolean then some (offset + column.size) else none
  | .variable _ => none

/-- The number of variable slots up to the one of a column. -/
def ColumnDefinition.variableEnd (column : ColumnDefinition) : Option ℕ :=
  match column.storage with
  | .fixed _ => none
  | .variable index => some (index + 1)

/-- The largest of the numbers; zero when there are none. -/
def maximum (numbers : List ℕ) : ℕ :=
  numbers.foldr max 0

/-- What the live columns say about the rows that store them. -/
structure RowRequirement where
  columnCount : ℕ
  deleted : Bool
  fixedBoundary : ℕ
  minimumVariables : ℕ
  variableLimit : ℕ

/-- What the definition asks of a row with this count of columns. -/
def rowRequirement (definition : TableDefinition) (columnCount : ℕ) : RowRequirement :=
  let columns := storedColumns definition columnCount
  let deleted : Bool := columns.length < columnCount
  -- the slot count of a column is a byte
  let minimumVariables := maximum (columns.filterMap ColumnDefinition.variableEnd) % 256
  { columnCount, deleted
    fixedBoundary := 1 + maximum (columns.filterMap ColumnDefinition.fixedEnd)
    minimumVariables
    variableLimit := if deleted then definition.storageVariableCount else minimumVariables }

/-! ## Validation -/

namespace RowLayout

/-- A row none of whose live columns is variable. Deleted fields may have left bytes behind the live
fixed ones; other rows end there, or after two reserved bytes. -/
def validateFixedOnly (required : RowRequirement) (nullStart : ℕ) : Except RowFault RowLayout := do
  let paddedBoundary := max required.fixedBoundary 3
  refuseIf (nullStart < required.fixedBoundary ∨ (¬required.deleted ∧
      nullStart ≠ required.fixedBoundary ∧ nullStart ≠ paddedBoundary))
    (.error (.invalidFixedBoundary required.fixedBoundary nullStart))
  return { fixedBoundary := required.fixedBoundary, offsetsStart := nullStart, nullStart
           columnCount := required.columnCount, variableCount := 0, jumps := 0 }

/-- Locates the trailer from the end of the row. -/
def locateTrailer (row : List UInt8) (definition : TableDefinition) (required : RowRequirement)
    (nullStart : ℕ) : Except RowFault RowLayout := do
  let nullLen := (required.columnCount + 7) / 8
  refuseIf (nullStart < 1) (.error (.rowTooShort row.length (1 + nullLen + 1)))
  let countPosition := nullStart - 1
  let raw ← indexByte row countPosition
  let variableCount := raw.toNat
  refuseIf (variableCount < required.minimumVariables ∨
      variableCount > definition.storageVariableCount ∨ variableCount > required.columnCount ∨
      (¬required.deleted ∧ variableCount ≠ required.minimumVariables))
    (.error (.variableCountMismatch required.minimumVariables variableCount))
  let last ← subtract row.length 1
  let jumps := last / 256
  let withoutJumps ← subtract row.length jumps
  refuseIf (jumpCount withoutJumps ≠ jumps)
    (.error (.unsupportedWideVariableOffsets variableCount row.length))
  let trailer := variableCount + 1 + jumps
  refuseIf (countPosition < trailer)
    (.error (.rowTooShort row.length (1 + nullLen + 1 + trailer)))
  return { fixedBoundary := required.fixedBoundary, offsetsStart := countPosition -
    trailer, nullStart
           columnCount := required.columnCount, variableCount, jumps }

/-- Ordinal 255 shares the unused-jump marker. The trailer locates the final boundary independently;
its low byte must agree. -/
def checkFinalLow (layout : RowLayout) (row : List UInt8) : Except RowFault Unit :=
  if layout.variableCount = 255 then do
    let low ← indexByte row layout.offsetsStart
    refuseIf (low.toNat ≠ layout.offsetsStart % 256)
      (.error (.invalidVariableBounds (layout.variableCount - 1) low.toNat layout.offsetsStart
        layout.offsetsStart))
  else .ok ()

/-- One iteration over the variable fields. -/
def checkRange (layout : RowLayout) (row : List UInt8) (start index : ℕ) : Except RowFault ℕ := do
  let next ← succByte index
  let stop ← layout.boundary row next
  refuseIf (start > stop ∨ stop > layout.offsetsStart)
    (.error (.invalidVariableBounds index start stop layout.offsetsStart))
  return stop

/-- A jump entry names the first boundary at or above its threshold, or is unused. -/
def jumpValid (layout : RowLayout) (row : List UInt8) (threshold : ℕ) (jump : UInt8) :
    Except RowFault Bool :=
  if jump = unusedJump then
    if layout.offsetsStart < threshold then .ok true
    else if layout.variableCount = 255 then do
      let before ← layout.boundary row 254
      return before < threshold
    else .ok false
  else if jump.toNat ≤ layout.variableCount then do
    let first ← layout.boundary row jump.toNat
    if first ≥ threshold then
      if jump = 0 then return true
      else
        let before ← layout.boundary row (jump.toNat - 1)
        return before < threshold
    else return false
  else .ok false

/-- One iteration over the jump bytes. -/
def checkJump (layout : RowLayout) (row : List UInt8) (entry : UInt8 × ℕ) :
    Except RowFault Unit := do
  let block ← subtract layout.jumps entry.2
  let valid ← layout.jumpValid row (256 * block) entry.1
  refuseIf (¬valid) (.error (.unsupportedWideVariableOffsets layout.variableCount row.length))

/-- A row with a live variable column. -/
def validateVariable (row : List UInt8) (definition : TableDefinition) (required : RowRequirement)
    (nullStart : ℕ) : Except RowFault RowLayout := do
  let layout ← locateTrailer row definition required nullStart
  layout.checkFinalLow row
  let actualFixed ← layout.boundary row 0
  refuseIf (actualFixed < required.fixedBoundary ∨
      (¬required.deleted ∧ actualFixed ≠ required.fixedBoundary))
    (.error (.invalidFixedBoundary required.fixedBoundary actualFixed))
  let last ← (List.range layout.variableCount).foldlM (layout.checkRange row) actualFixed
  refuseIf (last ≠ layout.offsetsStart)
    (.error (.invalidVariableBounds (layout.variableCount - 1) last layout.offsetsStart
      layout.offsetsStart))
  let jumps ← layout.jumpBytes row
  forM jumps.zipIdx (layout.checkJump row)
  return layout

/-- `RowLayout::validate`. -/
def validate (row : List UInt8) (definition : TableDefinition) : Except RowFault RowLayout := do
  let expected := definition.storageColumnCount
  refuseIf (¬expected < 256) (.error (.columnCountNotRepresentable expected))
  let first ← okOr row[0]? (.error (.rowTooShort 0 1))
  let columnCount := first.toNat
  -- Columns appended since are absent from unchanged older rows.
  refuseIf (columnCount > expected) (.error (.columnCountMismatch expected columnCount))
  let nullLen := (columnCount + 7) / 8
  refuseIf (row.length < 1 + nullLen) (.error (.rowTooShort row.length (1 + nullLen)))
  let required := rowRequirement definition columnCount
  let limit := maximumLength required.variableLimit
  refuseIf (row.length > limit) (.error (.rowTooLong row.length limit))
  let nullStart ← subtract row.length nullLen
  if required.minimumVariables = 0 then validateFixedOnly required nullStart
  else validateVariable row definition required nullStart

end RowLayout

/-! ## Fields -/

/-- The stored form of a field. -/
inductive RawField where
  | null
  | bytes (raw : List UInt8)
  deriving DecidableEq, Repr

/-- One validated row. -/
structure RowView where
  raw : List UInt8
  definition : TableDefinition
  layout : RowLayout
  deriving DecidableEq, Repr

namespace RowView

/-- The range a present field occupies. -/
def fieldRange (view : RowView) (column : ColumnDefinition) : Except RowFault (Option (ℕ × ℕ)) :=
  match column.storage with
  | .fixed offset => .ok (some (1 + offset, 1 + offset + column.size))
  | .variable index => view.layout.variableRange view.raw index

/-- `field`: the bytes of a column, or nothing for an unknown ordinal. A Boolean has none of its
own. -/
def field (view : RowView) (ordinal : ℕ) : Except RowFault (Option RawField) :=
  match view.definition.columns[ordinal]? with
  | none => .ok none
  | some column =>
    if column.physicalType = .boolean then do
      let empty ← sliceBytes view.raw view.layout.fixedBoundary view.layout.fixedBoundary
      return some (.bytes empty)
    else if view.layout.present view.raw column.storageOrdinal then do
      match ← view.fieldRange column with
      | none => return none
      | some range =>
        let raw ← sliceBytes view.raw range.1 range.2
        return some (.bytes raw)
    else .ok (some .null)

end RowView

end Jet3
