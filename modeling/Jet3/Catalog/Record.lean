import Jet3.Format.Page
import Jet3.Library.Reader
import Jet3.Library.Outcome

/-!
# Catalog records

The decoder of the minimum catalog record: the identifier, kind and flags at fixed offsets, and the
name between them and the reverse trailer.
-/

namespace Jet3

open Outcome

/-- The column count that a catalog row starts with. -/
def catalogColumnCount : UInt8 := 17
/-- Where the identifier of an object stands. -/
def objectIdOffset : ℕ := 1
/-- Where the kind of an object stands. -/
def objectKindOffset : ℕ := 9
/-- Where the flags of an object stand. -/
def objectFlagsOffset : ℕ := 27
/-- Where the name of an object starts. -/
def nameStartOffset : ℕ := 31
/-- The shortest record has an empty name and its trailer. -/
def minimumRecordLen : ℕ := nameStartOffset + 6
/-- Where the trailer says the name ends, counted from the end of the record. -/
def nameEndFromEnd : ℕ := 6
/-- Where the trailer says the name starts, counted from the end. -/
def nameStartFromEnd : ℕ := 5
/-- Where the trailer repeats the count of the fixed columns, counted from the end. -/
def fixedBoundaryFromEnd : ℕ := 4
/-- Where the marker of the trailer stands, counted from the end. -/
def trailerMarkerFromEnd : ℕ := 3
/-- The count of the fixed columns. -/
def fixedBoundary : UInt8 := 11
/-- The marker of the trailer. -/
def trailerMarker : UInt8 := 0xff
/-- The kind of a table. -/
def tableKind : ℕ := 1
/-- The kind of a query. -/
def queryKind : ℕ := 5
/-- The flags of an object a user made. -/
def userFlags : ℕ := 0
/-- The flags of an object of the engine. -/
def systemFlags : ℕ := 0x80000000

/-- Saved queries retain their query type in the catalog flags. -/
def queryFlags : List ℕ := [16, 32, 48, 64, 80, 96, 128]

/-- The kinds the reader tells apart; all others are kept as they are. -/
inductive CatalogObjectKind where
  | table
  | unknown (raw : ℕ)
  deriving DecidableEq, Repr

/-- Who an object belongs to. -/
inductive CatalogObjectClass where
  | user
  | system
  deriving DecidableEq, Repr

/-- A catalog row as its reader gives it away. -/
structure CatalogRecord where
  id : ℕ
  kind : CatalogObjectKind
  objectClass : CatalogObjectClass
  rawFlags : ℕ
  name : List UInt8
  tableDefinition : Option PageNumber
  deriving DecidableEq, Repr

/-- One active row of a catalog data page. -/
structure CatalogRecordView where
  id : ℕ
  kind : CatalogObjectKind
  objectClass : CatalogObjectClass
  rawFlags : ℕ
  rawName : List UInt8
  deriving DecidableEq, Repr

/-- `into_owned`. -/
def CatalogRecordView.intoOwned (view : CatalogRecordView) (tableDefinition : Option PageNumber) :
    CatalogRecord :=
  { id := view.id, kind := view.kind, objectClass := view.objectClass, rawFlags := view.rawFlags
    name := view.rawName, tableDefinition }

/-- Why a row is no catalog record. -/
inductive CatalogRecordError where
  | activeOverflowRow (row : ℕ)
  | recordTooShort (length minimum : ℕ)
  | unexpectedColumnCount (observed : UInt8)
  | invalidNameTrailer (nameStart nameEnd : ℕ) (fixedBoundary marker : UInt8) (recordLength : ℕ)
  | unsupportedObjectFlags (raw : ℕ)
  deriving DecidableEq, Repr

/-- The kind of a stored number. -/
def decodeObjectKind (raw : ℕ) : CatalogObjectKind :=
  if raw = tableKind then .table else .unknown raw

/-- The class the flags of an object say it has; only queries have more than two. -/
def decodeObjectClass (kind flags : ℕ) : Except CatalogRecordError CatalogObjectClass :=
  if flags = userFlags then .ok .user
  else if flags = systemFlags then .ok .system
  else if kind = queryKind ∧ flags ∈ queryFlags then .ok .user
  else .error (.unsupportedObjectFlags flags)

/-- `decode_catalog_record`. -/
def decodeCatalogRecord (row : List UInt8) : Except CatalogRecordError CatalogRecordView := do
  refuseIf (row.length < minimumRecordLen) (.recordTooShort row.length minimumRecordLen)
  refuseIf (byteAt row 0 ≠ catalogColumnCount) (.unexpectedColumnCount (byteAt row 0))
  let nameEnd := (byteAt row (row.length - nameEndFromEnd)).toNat
  let nameStart := (byteAt row (row.length - nameStartFromEnd)).toNat
  let boundary := byteAt row (row.length - fixedBoundaryFromEnd)
  let marker := byteAt row (row.length - trailerMarkerFromEnd)
  refuseIf (nameStart ≠ nameStartOffset ∨ nameEnd ≤ nameStart ∨
    nameEnd > row.length - nameEndFromEnd ∨
      boundary ≠ fixedBoundary ∨ marker ≠ trailerMarker)
    (.invalidNameTrailer nameStart nameEnd boundary marker row.length)
  let rawFlags := leAt row objectFlagsOffset 4
  let objectClass ← decodeObjectClass (leAt row objectKindOffset 2) rawFlags
  return { id := leAt row objectIdOffset 4, kind := decodeObjectKind (leAt row objectKindOffset 2)
           objectClass, rawFlags, rawName := (row.drop nameStart).take (nameEnd - nameStart) }

end Jet3
