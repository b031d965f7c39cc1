import Jet3.Definition.PhysicalIndex

/-!
# Long-value map groups

The suffix of a table definition: one ten-byte group per Memo or LongBinary column, naming the
column by its stable storage identity and locating the rows of its owned and available maps.
-/

namespace Jet3

open Outcome

/-- The bytes of one map group. -/
def longValueMapGroupLen : ℕ := 10

/-- The maps of a column with long values. -/
structure LongValueMapDefinition where
  column : ℕ
  owned : MapRowLocator
  available : MapRowLocator
  rawGroup : List UInt8
  deriving DecidableEq, Repr

/-- A row byte followed by a three-byte page number. -/
def decodeLocator (raw : List UInt8) : MapRowLocator :=
  { page := leAt raw 1 3, row := byteAt raw 0 }

/-- A map row is on a page of the file other than the first. -/
def validateLocator (pageCount ordinal : ℕ) (role : String) (locator : MapRowLocator) :
    Except LongValueMapError Unit := do
  refuseIf (locator.page = 0) (.invalidReference ordinal role locator none)
  (validateReference pageCount locator.page).mapError fun source =>
    .invalidReference ordinal role locator (some source)

/-- One iteration over the groups of the suffix. -/
def decodeMapGroup (pageCount : ℕ) (columns : List ColumnDefinition)
    (maps : List LongValueMapDefinition) (entry : List UInt8 × ℕ) :
    Except LongValueMapError (List LongValueMapDefinition) := do
  let rawGroup := entry.1
  let ordinal := leAt rawGroup 0 2
  let column ← okOr (columns.find? fun column => column.storageOrdinal = ordinal)
    (.invalidColumnOrdinal entry.2 ordinal columns.length)
  refuseIf (¬column.physicalType.isLongValue) (.notLongValueColumn ordinal column.physicalType)
  refuseIf (∃ map ∈ maps, map.column = column.ordinal) (.duplicateColumn ordinal)
  let owned := decodeLocator ((rawGroup.drop 2).take 4)
  let available := decodeLocator ((rawGroup.drop 6).take 4)
  validateLocator pageCount ordinal "owned" owned
  validateLocator pageCount ordinal "available" available
  return maps ++ [{ column := column.ordinal, owned, available, rawGroup }]

/-- Group `n` of a suffix. -/
def mapGroup (suffix : List UInt8) (n : ℕ) : List UInt8 :=
  (suffix.drop (n * longValueMapGroupLen)).take longValueMapGroupLen

/-- Every long-value column has a group. -/
def checkCovered (columns : List ColumnDefinition) (maps : List LongValueMapDefinition) :
    Except LongValueMapError Unit :=
  match columns.find? fun column =>
      column.physicalType.isLongValue ∧ ¬∃ map ∈ maps, map.column = column.ordinal with
  | some missing => .error (.missingColumn missing.ordinal)
  | none => .ok ()

/-- `decode_long_value_maps`. -/
def decodeLongValueMaps (pageCount : ℕ) (columns : List ColumnDefinition) (suffix : List UInt8) :
    Except LongValueMapError (List LongValueMapDefinition) := do
  refuseIf (suffix.length % longValueMapGroupLen ≠ 0) (.invalidSuffixLength suffix.length)
  let groups := (List.range (suffix.length / longValueMapGroupLen)).map (mapGroup suffix)
  let maps ← groups.zipIdx.foldlM (decodeMapGroup pageCount columns) []
  checkCovered columns maps
  return maps

end Jet3
