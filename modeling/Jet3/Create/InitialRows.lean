import Jet3.Create.PayloadAgreement
import Jet3.Write.AutoNumber

/-!
# The rows a table is created with

Rows are encoded one after the other and packed into data pages behind the pages of the schema and
of the payloads. Each row gets a generated number where it asks for one, and every index of the
table gets the place of the row.

* `InitialAutoIncrement` is the pass that numbers the rows;
* `rowStep` is what one row does to the state of the loop;
* `composeRows` is the whole loop, and `withRows` the entry point, which leaves a table without rows
  alone.
-/

namespace Jet3

open Outcome LongValue

/-- A column of a table to create, with the options its properties get. -/
structure InitialColumn where
  spec : ColumnSpec
  required : Bool
  allowZeroLength : Bool
  validationRule : Bool
  deriving DecidableEq, Repr

/-- The options the row validation takes from the column. -/
def InitialColumn.options (column : InitialColumn) : ColumnOptions :=
  { required := column.required, allowZeroLength := some column.allowZeroLength
    validationRule := false }

/-! ## Numbers -/

/-- The numbers of a new table: the state behind all its rows, and the one behind the rows seen so
far. -/
structure InitialAutoIncrement where
  column : ℕ
  finalState : AutoNumberState
  current : AutoNumberState
  nextRow : ℕ
  deriving DecidableEq, Repr

namespace InitialAutoIncrement

/-- The number a row gives, if it does not ask for one. -/
def explicit (value : Option RowValue) : Except InitialRowsError (Option Int32) :=
  match value with
  | some .autoIncrement => .ok none
  | some (.long value) => .ok (some value)
  | _ => .error (.autoIncrement "AutoIncrement requires generation or an explicit Long")

/-- The state behind all rows. -/
def finalStateOf (column : ℕ) (rows : List (List RowValue)) :
    Except InitialRowsError AutoNumberState :=
  rows.foldlM (fun state row => do
    let number ← explicit row[column]?
    return (state.allocate number).1) .initial

/-- `InitialAutoIncrement::new`. -/
def new (columns : List InitialColumn) (rows : List (List RowValue)) :
    Except InitialRowsError (Option InitialAutoIncrement) :=
  match columns.zipIdx.filter fun entry => entry.1.spec.columnType = .autoIncrement with
  | [] => .ok none
  | [(_, column)] => do
    let finalState ← finalStateOf column rows
    return some { column, finalState, current := .initial, nextRow := 0 }
  | _ => .error (.autoIncrement "multiple AutoIncrement columns")

/-- The row with its number. -/
def lower (generated : InitialAutoIncrement) (values : List RowValue) (ordinal : ℕ) :
    Except InitialRowsError (InitialAutoIncrement × List RowValue) := do
  refuseIf (values.length > 255 ∨ generated.column ≥ values.length ∨ ordinal ≠ generated.nextRow)
    (.autoIncrement "AutoIncrement row position or value count")
  let number ← explicit values[generated.column]?
  let (next, value) := generated.current.allocate number
  return ({ generated with current := next, nextRow := generated.nextRow + 1 },
    values.set generated.column (.long value))

/-- `InitialAutoIncrement::write`: the counter goes to the root page of the definition. -/
def write (generated : InitialAutoIncrement) (root : Page) : Page :=
  generated.finalState.writeBytes root

/-- `InitialAutoIncrement::matches`, which the check of the created file asks for. -/
def matchesRoot (generated : InitialAutoIncrement) (root : Page) : Bool :=
  decide (AutoNumberState.decode (pageBytesOf root) = .ok generated.finalState)

end InitialAutoIncrement

/-! ## Rows -/

/-- One iteration of `initial_row_layout`. -/
def layoutStep (state : List RowColumnLayout × ColumnCursor) (entry : InitialColumn × ℕ) :
    Except TableDefinitionWriteError (List RowColumnLayout × ColumnCursor) := do
  let (resolved, cursor) ← resolveColumn entry.2 entry.1.spec .user none state.2
  return (state.1 ++ [{ physicalType := entry.1.spec.physicalType, storage := resolved.storage
                        size := entry.1.spec.size, storageOrdinal := none }], cursor)

/-- `initial_row_layout`. -/
def initialRowLayout (columns : List InitialColumn) :
    Except TableDefinitionWriteError (List RowColumnLayout) := do
  let state ← columns.zipIdx.foldlM layoutStep ([], { nextFixedOffset := 0, variablesSeen := 0 })
  return state.1

/-- A data page of a new table, and whether it has room left. -/
structure InitialDataPage where
  image : Page
  available : Bool

/-- A row as it was placed: the values with the number, the values it was encoded from, its bytes,
and the place the indexes were given. -/
structure PlacedRow where
  values : List RowValue
  lowered : List RowValue
  bytes : List UInt8
  locator : RowLocator

/-- The state of the loop over the rows. -/
structure RowsState where
  generated : Option InitialAutoIncrement
  nextPayload : ℕ
  builder : DataPageBuilder
  data : List InitialDataPage
  indexes : List InitialScalarIndex
  placed : List PlacedRow

/-- What a table to create is, as far as its rows are concerned. -/
structure InitialTable where
  root : PageNumber
  appendedPages : ℕ
  columns : List InitialColumn
  rule : Bool
  indexes : List InitialScalarIndex

namespace InitialTable

variable (table : InitialTable)

/-- The page behind those of the schema. -/
def payloadStart : ℕ :=
  table.root + table.appendedPages

/-- The columns with long values. -/
def longValueCount : ℕ :=
  table.columns.countP fun column => column.spec.physicalType.isLongValue

/-- Whether a row of nulls still fits, after which a page is full. -/
def initialPageAvailable (minimum : List UInt8) (builder : DataPageBuilder) :
    Except InitialRowsError Bool :=
  match builder.appendRow minimum with
  | .ok _ => .ok true
  | .error (.pageFull _ _) | .error (.rowSlotsExhausted _) => .ok false
  | .error error => .error (.page error)

/-- `push_initial_page`: the page behind the data pages so far. -/
def pushInitialPage (dataStart : ℕ) (minimum : List UInt8) (data : List InitialDataPage)
    (builder : DataPageBuilder) : Except InitialRowsError (List InitialDataPage) := do
  (checkPageLimit (dataStart + data.length)).mapError .compose
  let available ← initialPageAvailable minimum builder
  let image ← (finishDataBuilder builder).mapError .encoding
  return data ++ [({ image, available } : InitialDataPage)]

/-- A page that cannot take the row, because it is full. -/
def isFull : PageImageError → Bool
  | .pageFull _ _ | .rowSlotsExhausted _ => true
  | _ => false

/-- Appends a row to the current page, or to a new one where that is full. -/
def appendInitialRow (dataStart : ℕ) (minimum : List UInt8) (state : RowsState)
    (bytes : List UInt8) :
    Except InitialRowsError (List InitialDataPage × DataPageBuilder × UInt8) :=
  match state.builder.appendRow bytes with
  | .ok (builder, slot) => .ok (state.data, builder, slot)
  | .error error =>
    if isFull error = true ∧ state.builder.rowCount ≠ 0 then do
      let data ← pushInitialPage dataStart minimum state.data state.builder
      let builder ← (DataPageBuilder.new table.root).mapError .page
      let (builder, slot) ← (builder.appendRow bytes).mapError .page
      return (data, builder, slot)
    else .error (.page error)

/-- The row with its number, if the table has an AutoNumber column. -/
def numberRow (generated : Option InitialAutoIncrement) (values : List RowValue) (ordinal : ℕ) :
    Except InitialRowsError (Option InitialAutoIncrement × List RowValue) :=
  match generated with
  | none => .ok (none, values)
  | some generated => do
    let (generated, values) ← generated.lower values ordinal
    return (some generated, values)

/-- One iteration over the rows. -/
def rowStep (layout : List RowColumnLayout) (minimum : List UInt8) (dataStart : ℕ)
    (state : RowsState)
    (entry : List RowValue × ℕ) : Except InitialRowsError RowsState := do
  let (generated, values) ← numberRow state.generated entry.1 entry.2
  let ((bytes, lowered), nextPayload) ← encodeInitialRow layout
    (table.columns.map InitialColumn.options)
    values entry.2 state.nextPayload pageBytes
  let (data, builder, slot) ← table.appendInitialRow dataStart minimum state bytes
  let locator : RowLocator := { page := dataStart + data.length, slot }
  let indexes ← state.indexes.mapM fun index => (index.push (values, locator)).mapError .index
  return { generated, nextPayload, builder, data, indexes
           placed := state.placed ++ [{ values, lowered, bytes, locator }] }

end InitialTable

/-- What the rows add to the plan of a table. -/
structure InitialRows where
  longValues : Option InitialLongValues
  data : List InitialDataPage
  rowCount : ℕ
  indexes : List InitialScalarIndex
  autoIncrement : Option InitialAutoIncrement
  nextPayload : ℕ
  numbered : Option InitialAutoIncrement
  placed : List PlacedRow

namespace InitialRows

/-- The planned payload pages. -/
def payloadPages (planned : InitialRows) : List PayloadPage :=
  (planned.longValues.map InitialLongValues.pages).getD []

end InitialRows

namespace InitialTable

/-- The payload pages, for a table with Memo or OLE columns. -/
def payloadsOf (table : InitialTable) (rows : List (List RowValue)) :
    Except InitialRowsError (Option InitialLongValues) :=
  if table.longValueCount ≠ 0 then do
    let values ← InitialLongValues.new table.payloadStart rows
    return some values
  else .ok none

/-- The rows of a table that has some. -/
def composeRows (table : InitialTable) (rows : List (List RowValue))
    (generated : Option InitialAutoIncrement) : Except InitialRowsError InitialRows := do
  refuseIf (table.rule = true ∨ table.columns.any InitialColumn.validationRule = true)
    .validationRuleRows
  refuseIf (¬rows.length < 2 ^ 32) (.encoding (.integerConversion rows.length "u32"))
  let layout ← (initialRowLayout table.columns).mapError .definition
  let longValues ← table.payloadsOf rows
  let minimum ← (encodeRow layout (layout.map fun _ => .null) pageBytes).mapError .row
  let builder ← (DataPageBuilder.new table.root).mapError .page
  let dataStart := table.payloadStart + (longValues.map fun values => values.pages.length).getD 0
  let state ← rows.zipIdx.foldlM (table.rowStep layout minimum dataStart)
    { generated, nextPayload := table.payloadStart, builder, data := [], indexes := table.indexes
      placed := [] }
  let indexes ← state.indexes.mapM fun index => index.sort.mapError .index
  let data ← pushInitialPage dataStart minimum state.data state.builder
  return { longValues, data, rowCount := rows.length, indexes, autoIncrement := generated
           nextPayload := state.nextPayload, numbered := state.generated, placed := state.placed }

/-- `with_rows`. -/
def withRows (table : InitialTable) (rows : List (List RowValue)) :
    Except InitialRowsError InitialRows := do
  let generated ← InitialAutoIncrement.new table.columns rows
  if rows = [] then
    return { longValues := none, data := [], rowCount := 0, indexes := table.indexes
             autoIncrement := generated, nextPayload := table.payloadStart, numbered := generated
             placed := [] }
  else table.composeRows rows generated

end InitialTable

end Jet3
