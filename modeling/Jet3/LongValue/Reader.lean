import Jet3.Definition.Error
import Jet3.Format.DecodedText
import Jet3.LongValue.Writer

/-!
# Reading long values

A Memo or OLE field is a header, which holds the payload itself or names the first row of it. The
rows are on pages owned by `LVAL`; `LongValueCursor` reads them one by one and refuses a chain that
returns to a row, that ends before the declared length, or that goes on behind it.

* `LongValue.decode` reads a header;
* `validateLvalRow` finds a row on its page;
* `LongValueCursor.nextChunk` reads one row, and `drain` reads the rows up to the end of the chain.
-/

namespace Jet3

open Outcome

/-- Long texts and long binaries. -/
inductive LongValueKind where
  | memo
  | ole
  deriving DecidableEq, Repr

/-- Payload bytes with their interpretation. -/
inductive LongValueBytes where
  | text (value : DecodedText)
  | binary (payload : List UInt8)
  deriving DecidableEq, Repr

/-- `raw_bytes`. -/
def LongValueBytes.rawBytes : LongValueBytes → List UInt8
  | text value => value.raw
  | binary payload => payload

/-- What a row stores of a payload kept elsewhere. -/
structure LongValueReference where
  rawHeader : List UInt8
  source : RowLocator
  target : RowLocator
  length : ℕ
  storage : ExternalLongValueStorage
  kind : LongValueKind
  codePage : TextCodePage
  deriving DecidableEq, Repr

/-- A decoded inline value or an external reference. -/
inductive LongValue where
  | inline (rawHeader : List UInt8) (value : LongValueBytes)
  | external (reference : LongValueReference)
  deriving DecidableEq, Repr

/-- Why a payload cannot be read. -/
inductive LongValueError where
  | headerTooShort (actual : ℕ)
  | externalHeaderLength (actual : ℕ)
  | unsupportedFlags (raw : ℕ)
  | nonzeroReservedHeader
  | missingExternalTarget
  | unexpectedPageKind (page : PageNumber) (actual : PageKind)
  | invalidOwner (page : PageNumber) (actual : List UInt8)
  | invalidDirectory (page : PageNumber)
  | missingRow (locator : RowLocator) (rowCount : ℕ)
  | invalidRowFlags (locator : RowLocator) (raw : ℕ)
  | chainRowTooShort (locator : RowLocator) (actual : ℕ)
  | lengthMismatch (expected actual : ℕ)
  | nonterminalAtLength (locator : RowLocator)
  | selfLink (locator : RowLocator)
  | cycle (locator : RowLocator)
  | allocation (source : AllocationTraversalError)
  | text (source : TextError)
  deriving DecidableEq, Repr

/-- The interpretation of payload bytes: text is decoded, binary data is not. -/
def LongValueKind.interpret (kind : LongValueKind) (codePage : TextCodePage)
    (payload : List UInt8) :
    Except LongValueError LongValueBytes :=
  match kind with
  | memo => do
    let text ← (decodeText payload codePage).mapError .text
    return .text text
  | ole => .ok (.binary payload)

namespace LongValue

/-- One more than the largest length a control word declares. -/
def lengthBound : ℕ := 2 ^ 24

/-- `LongValue::decode`. -/
def decode (raw : List UInt8) (source : RowLocator) (kind : LongValueKind)
    (codePage : TextCodePage) :
    Except LongValueError LongValue := do
  refuseIf (raw.length < headerLen) (.headerTooShort raw.length)
  let rawHeader := raw.take headerLen
  let control := leAt rawHeader 0 4
  let length := control % lengthBound
  -- the bits above the length
  let flags := control - length
  if flags = inlineFlag then
    refuseIf ((rawHeader.drop 4).any (· ≠ 0)) .nonzeroReservedHeader
    refuseIf (raw.length - headerLen ≠ length) (.lengthMismatch length (raw.length - headerLen))
    let value ← kind.interpret codePage (raw.drop headerLen)
    return .inline rawHeader value
  else if flags = singlePageFlag ∨ flags = chainedFlag then
    refuseIf (raw.length ≠ headerLen) (.externalHeaderLength raw.length)
    refuseIf ((rawHeader.drop 8).any (· ≠ 0)) .nonzeroReservedHeader
    let target := LongValue.decodeLocator ((rawHeader.drop 4).take 4)
    refuseIf (target.page = 0 ∧ target.slot = 0) .missingExternalTarget
    let storage :=
      if flags = singlePageFlag then ExternalLongValueStorage.singlePage else .chained
    return .external { rawHeader, source, target, length, storage, kind, codePage }
  else throw (.unsupportedFlags flags)

/-- What the search for a row knows: where the row before starts, and the range once it is found. -/
structure RowScan where
  prior : ℕ
  target : Option Range

/-- One iteration over the directory of a payload page. -/
def scanRow (locator : RowLocator) (page : Page) (rowCount : ℕ) (scan : RowScan) (row : ℕ) :
    Except LongValueError RowScan :=
  let raw := rawOffset page row
  let rowLocator : RowLocator := { page := locator.page, slot := UInt8.ofNat row }
  let start := raw &&& offsetMask
  -- an empty deleted sibling carries no payload
  if raw - start = hiddenFlag + overflowFlag ∧ start = scan.prior ∧ rowLocator ≠
    locator then .ok scan
  else do
    refuseIf (raw - start ≠ 0) (.invalidRowFlags rowLocator raw)
    refuseIf (start < DataPageDirectory.directoryEnd rowCount ∨ start ≥ scan.prior)
      (.invalidDirectory locator.page)
    return { prior := start
             target := if rowLocator =
               locator then some { start, stop := scan.prior } else scan.target }

/-- `validate_lval_row`: the range of a payload row. -/
def validateLvalRow (locator : RowLocator) (page : Page) : Except LongValueError Range := do
  let owner := DataPageDirectory.owner page
  refuseIf (owner ≠ longValueOwner) (.invalidOwner locator.page owner)
  let rowCount := DataPageDirectory.declaredRowCount page
  refuseIf (rowCount > maxRowCount ∨ rowCount > 256) (.invalidDirectory locator.page)
  let scan ← (List.range rowCount).foldlM (scanRow locator page rowCount)
    { prior := pageBytes, target := none }
  okOr scan.target (.missingRow locator rowCount)

end LongValue

/-- A streamed fragment: its row, and the payload in it. -/
structure LongValueChunk where
  locator : RowLocator
  rawRow : List UInt8
  value : LongValueBytes
  deriving DecidableEq, Repr

/-- A read of a payload: the next fragment, those visited, and the bytes handed out so far. -/
structure LongValueCursor where
  reference : LongValueReference
  next : Option RowLocator
  visited : List RowLocator
  emitted : ℕ
  failed : Bool

namespace LongValueCursor

/-- `LongValueCursor::new`. -/
def new (reference : LongValueReference) : LongValueCursor :=
  { reference, next := some reference.target, visited := [], emitted := 0, failed := false }

/-- The payload of a row and the row that follows it. -/
def splitRow (storage : ExternalLongValueStorage) (locator : RowLocator) (row : List UInt8) :
    Except LongValueError (List UInt8 × Option RowLocator) :=
  match storage with
  | .singlePage => .ok (row, none)
  | .chained => do
    refuseIf (row.length < LongValue.chainPointerLen) (.chainRowTooShort locator row.length)
    let rawPointer := row.take LongValue.chainPointerLen
    let next := if rawPointer ≠
      [0, 0, 0, 0] then some (LongValue.decodeLocator rawPointer) else none
    return (row.drop LongValue.chainPointerLen, next)

/-- Reads the row at `locator`, which is not yet visited. -/
def readRow (file : PageFile) (cursor : LongValueCursor) (locator : RowLocator) :
    Except LongValueError (LongValueChunk × LongValueCursor) := do
  let classified ←
    (file.readClassifiedPage locator.page).mapError fun source => .allocation (.page source)
  refuseIf (classified.kind ≠ .data) (.unexpectedPageKind locator.page classified.kind)
  let range ← LongValue.validateLvalRow locator classified.raw
  let rawRow := classified.raw.slice range.start range.stop
  let (payload, following) ← splitRow cursor.reference.storage locator rawRow
  let nextEmitted := cursor.emitted + payload.length
  let expected := cursor.reference.length
  refuseIf (nextEmitted > expected ∨ (following = none ∧ nextEmitted ≠ expected))
    (.lengthMismatch expected nextEmitted)
  refuseIf (following ≠ none ∧ nextEmitted = expected) (.nonterminalAtLength locator)
  let value ← cursor.reference.kind.interpret cursor.reference.codePage payload
  return ({ locator, rawRow, value },
    { cursor with next := following, visited := locator :: cursor.visited, emitted := nextEmitted })

/-- `next_chunk_inner`. -/
def nextChunkInner (file : PageFile) (cursor : LongValueCursor) :
    Except LongValueError (Option (LongValueChunk × LongValueCursor)) :=
  match cursor.next with
  | none => .ok none
  | some locator => do
    refuseIf (locator = cursor.reference.source) (.selfLink locator)
    refuseIf (locator ∈ cursor.visited) (.cycle locator)
    let chunk ← readRow file cursor locator
    return some chunk

/-- `next_chunk`: an error or the end of the chain exhausts the stream. -/
def nextChunk (file : PageFile) (cursor : LongValueCursor) :
    Except LongValueError (Option LongValueChunk) × LongValueCursor :=
  if cursor.failed then (.ok none, cursor)
  else
    match nextChunkInner file cursor with
    | .ok (some (chunk, next)) => (.ok (some chunk), next)
    | .ok none => (.ok none, { cursor with failed := true })
    | .error e => (.error e, { cursor with failed := true })

/-- The chunks up to the end of the stream, and nothing when `fuel` calls do not reach it. -/
def drain (file : PageFile) :
    ℕ → LongValueCursor → Except LongValueError (Option (List LongValueChunk))
  | 0, _ => .ok none
  | fuel + 1, cursor =>
    match nextChunk file cursor with
    | (.error e, _) => .error e
    | (.ok none, _) => .ok (some [])
    | (.ok (some chunk), next) => do
      let rest ← drain file fuel next
      return rest.map (chunk :: ·)

end LongValueCursor

end Jet3
