import Mathlib.Data.Nat.Notation

/-!
# Column types

The physical types of columns, where a row stores their values, and the fixed offsets of a table
definition.
-/

namespace Jet3

/-! ## The fixed header -/

/-- The length of the header of a definition. -/
def definitionHeaderLen : ℕ := 43
/-- Where the header has the row count. -/
def rowCountField : ℕ := 12
/-- Where the header has the marker of user and system tables. -/
def headerMarkerField : ℕ := 20
/-- Where the header has the count of stored columns. -/
def storageColumnCountField : ℕ := 21
/-- Where the header has the count of variable columns. -/
def storageVariableCountField : ℕ := 23
/-- Where the header has the count of columns. -/
def columnCountField : ℕ := 25
/-- Where the header has the count of logical indexes. -/
def logicalIndexCountField : ℕ := 27
/-- Where the header has two bytes that are zero. -/
def reservedCountField : ℕ := 29
/-- Where the header has the count of physical indexes. -/
def physicalIndexCountField : ℕ := 31
/-- The length of the prefix of a physical index. -/
def physicalPrefixLen : ℕ := 8
/-- Where the piece on a continuation page starts. -/
def continuationPayloadOffset : ℕ := 8
/-- The length of the mark at the end of a definition. -/
def terminatorLen : ℕ := 2
/-- The length of a column record. -/
def columnRecordLen : ℕ := 18
/-- The length of a physical index record. -/
def physicalRecordLen : ℕ := 39
/-- The length of a logical index record. -/
def logicalRecordLen : ℕ := 20
/-- A physical index has room for ten key columns. -/
def keySlotCount : ℕ := 10

/-- Header-marker class of a table definition. -/
inductive TableDefinitionKind where
  | user
  | system
  deriving DecidableEq, Repr

/-! ## Columns -/

/-- The stored types. -/
inductive ColumnPhysicalType where
  | boolean
  | byte
  | integer
  | long
  | currency
  | single
  | double
  | dateTime
  | binary
  | text
  | longBinary
  | memo
  | guid
  deriving DecidableEq, Repr

namespace ColumnPhysicalType

/-- The sourced physical-type byte. -/
def raw : ColumnPhysicalType → UInt8
  | boolean => 1
  | byte => 2
  | integer => 3
  | long => 4
  | currency => 5
  | single => 6
  | double => 7
  | dateTime => 8
  | binary => 9
  | text => 10
  | longBinary => 11
  | memo => 12
  | guid => 15

/-- The sizes a column of this type may declare. -/
def validSize (size : ℕ) : ColumnPhysicalType → Bool
  | boolean | byte => size = 1
  | integer => size = 2
  | long | single => size = 4
  | currency | double | dateTime => size = 8
  | guid => size = 16
  | binary | text => 1 ≤ size ∧ size ≤ 255
  | longBinary | memo => size = 0

/-- The types that may be stored through a variable-offset entry. -/
def isVariable : ColumnPhysicalType → Bool
  | binary | text | longBinary | memo => true
  | _ => false

/-- The types that may not occupy a fixed range. -/
def neverFixed : ColumnPhysicalType → Bool
  | binary | longBinary | memo => true
  | _ => false

/-- The types whose payload lies in long-value storage. -/
def isLongValue : ColumnPhysicalType → Bool
  | longBinary | memo => true
  | _ => false

end ColumnPhysicalType

/-- Where a row stores a column: at a fixed offset, or through a variable-offset entry. -/
inductive ColumnStorageClass where
  | fixed (offset : ℕ)
  | variable (index : ℕ)
  deriving DecidableEq, Repr

end Jet3
