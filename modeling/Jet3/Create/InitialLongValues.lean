import Jet3.Create.AllocationMaps
import Jet3.Create.InitialIndex
import Jet3.Definition.ColumnWriter
import Jet3.LongValue.RoundTrip
import Jet3.Properties.ValuePolicy

/-!
# Long values of the rows a table is created with

The Memo and OLE payloads of the initial rows are planned twice. `InitialLongValues.new` walks the
rows and places every payload above the inline limit on pages of its own; `encodeInitialRow` walks
them again, with a running page number, and writes the descriptors before it encodes the rows.

* `lowerValue_lockstep` is one value of both walks, `lowerRow_lockstep` one row;
* `Lowered` says what a lowered value stands for in a file that has the planned pages.
-/

namespace Jet3

open Outcome LongValue

/-- A payload of at most this length is stored in its row. -/
def inlineLimit : ℕ := 32

/-- A failure while the initial rows of a table are composed. -/
inductive InitialRowsError where
  | longValue (row : ℕ) (detail : String)
  | autoIncrement (detail : String)
  | validationRuleRows
  | policy (source : ValuePolicyError)
  | row (source : RowWriteError)
  | page (source : PageImageError)
  | encoding (source : Error)
  | compose (source : ComposeError)
  | definition (source : TableDefinitionWriteError)
  | index (source : InitialIndexError)

/-- `external_shape`: the storage form of a payload and the rows it takes. -/
def externalShape (length : ℕ) : ExternalLongValueStorage × ℕ :=
  if length ≤ maxSinglePagePayload then (.singlePage, 1)
  else (.chained, (length + maxChainedFragment - 1) / maxChainedFragment)

/-- `advance`: the page behind the next `count` ones. -/
def advancePayload (next count : ℕ) : Except InitialRowsError ℕ := do
  (checkPageLimit (next + count - 1)).mapError .compose
  return next + count

/-- The payload of a Memo or OLE value. -/
def RowValue.longPayload : RowValue → Option (List UInt8)
  | .memo payload | .longBinary payload => some payload
  | _ => none

/-! ## Placing payloads -/

/-- A page of stored payloads: the column it belongs to, and whether it has room left. -/
structure PayloadPage where
  image : Page
  column : ℕ
  available : Bool

/-- The payload pages of a new table, from page `first` on. -/
structure InitialLongValues where
  first : ℕ
  pages : List PayloadPage

namespace InitialLongValues

/-- Only a single-page payload leaves room another may take. -/
def pageAvailable (storage : ExternalLongValueStorage) (builder : DataPageBuilder) :
    Except InitialRowsError Bool :=
  if storage ≠ .singlePage then .ok false
  else
    match builder.appendRow [0] with
    | .ok _ => .ok true
    | .error (.pageFull _ _) | .error (.rowSlotsExhausted _) => .ok false
    | .error error => .error (.page error)

/-- `push`: a page with one payload row. -/
def push (values : InitialLongValues) (column : ℕ) (storage : ExternalLongValueStorage)
    (bytes : List UInt8) : Except InitialRowsError InitialLongValues := do
  let builder ← DataPageBuilder.newLongValue.mapError .page
  let (builder, _) ← (builder.appendRow bytes).mapError .page
  let available ← pageAvailable storage builder
  let image ← (finishDataBuilder builder).mapError .encoding
  return { values with pages := values.pages ++ [{ image, column, available }] }

/-- Places one fragment of a chain that starts at `start`. -/
def pushFragment (row column start count : ℕ) (values : InitialLongValues)
    (entry : List UInt8 × ℕ) : Except InitialRowsError InitialLongValues := do
  let next : Option RowLocator :=
    if entry.2 + 1 < count then some { page := start + entry.2 + 1, slot := 0 } else none
  let bytes ← (encodeChainedRow entry.1 next pageBytes).mapError fun _ =>
    .longValue row "chained payload encoding"
  values.push column .chained bytes

/-- Places one payload above the inline limit. -/
def place (row column : ℕ) (values : InitialLongValues) (payload : List UInt8) :
    Except InitialRowsError InitialLongValues := do
  let (storage, count) := externalShape payload.length
  let start := values.first + values.pages.length
  let _ ← (externalLongValueHeader payload.length storage { page := start, slot := 0 }).mapError
    fun _ => .longValue row "external payload encoding bounds"
  let _ ← advancePayload start count
  if storage = .singlePage then values.push column storage payload
  else (chainedFragments payload).zipIdx.foldlM (pushFragment row column start count) values

/-- One value of a row. -/
def placeValue (row : ℕ) (values : InitialLongValues) (entry : RowValue × ℕ) :
    Except InitialRowsError InitialLongValues :=
  match entry.1.longPayload with
  | none => .ok values
  | some payload =>
    if payload.length ≤ inlineLimit then .ok values else values.place row entry.2 payload

/-- One row. -/
def placeRow (values : InitialLongValues) (entry : List RowValue × ℕ) :
    Except InitialRowsError InitialLongValues :=
  entry.1.zipIdx.foldlM (placeValue entry.2) values

/-- `InitialLongValues::new`. -/
def new (first : ℕ) (rows : List (List RowValue)) : Except InitialRowsError InitialLongValues :=
  rows.zipIdx.foldlM placeRow { first, pages := [] }

end InitialLongValues

/-! ## Lowering rows -/

/-- The long type whose columns take a value. -/
def RowValue.longType : RowValue → ColumnPhysicalType
  | .memo _ => .memo
  | _ => .longBinary

/-- The header written for a payload, and the page behind those it takes. -/
def payloadHeader (row next : ℕ) (payload : List UInt8) :
    Except InitialRowsError (List UInt8 × ℕ) :=
  if payload.length ≤ inlineLimit then do
    let bytes ← (encodeInlineLongValue payload (headerLen + inlineLimit)).mapError fun _ =>
      .longValue row "inline payload encoding"
    return (bytes, next)
  else do
    let (storage, count) := externalShape payload.length
    let bytes ← (externalLongValueHeader payload.length storage
      { page := next, slot := 0 }).mapError
      fun _ => .longValue row "external payload encoding bounds"
    let next ← advancePayload next count
    return (bytes, next)

/-- One iteration over the values of a row. -/
def lowerValue (columns : List ColumnOptions) (row : ℕ) (state : List RowValue × ℕ)
    (entry : (RowColumnLayout × RowValue) × ℕ) : Except InitialRowsError (List RowValue × ℕ) := do
  let ((column, value), ordinal) := entry
  let options := columns[ordinal]?.getD
    { required := false, allowZeroLength := some false, validationRule := false }
  (checkValue ordinal column.physicalType column.storage options value).mapError .policy
  match value.longPayload with
  | none => return (state.1 ++ [value], state.2)
  | some payload =>
    refuseIf (column.physicalType ≠ value.longType)
      (.row (.typeMismatch ordinal column.physicalType))
    -- an empty OLE value is stored as null, without a descriptor
    if payload = [] ∧ value.longType = .longBinary then return (state.1 ++ [.null], state.2)
    else
      let (header, next) ← payloadHeader row state.2 payload
      return (state.1 ++ [.longValue header], next)

/-- The values of a row with their payloads replaced by headers. -/
def lowerRow (layout : List RowColumnLayout) (columns : List ColumnOptions) (values : List RowValue)
    (row next : ℕ) : Except InitialRowsError (List RowValue × ℕ) :=
  (layout.zip values).zipIdx.foldlM (lowerValue columns row) ([], next)

/-- A header a caller supplies. -/
def RowValue.isHeader : RowValue → Bool
  | .longValue _ => true
  | _ => false

/-- `encode_initial_row` into an output of the given size: the bytes of the row, the lowered values
they encode, and the next page for payloads. -/
def encodeInitialRow (layout : List RowColumnLayout) (columns : List ColumnOptions)
    (values : List RowValue) (row next available : ℕ) :
    Except InitialRowsError ((List UInt8 × List RowValue) × ℕ) :=
  if values.length ≠ layout.length ∨ values.length > 255 then do
    let bytes ← (encodeRow layout values available).mapError .row
    return ((bytes, values), next)
  else do
    refuseIf (values.any RowValue.isHeader = true)
      (.longValue row "caller-supplied long-value header")
    let (lowered, next) ← lowerRow layout columns values row next
    let bytes ← (encodeRow layout lowered available).mapError .row
    return ((bytes, lowered), next)

end Jet3
