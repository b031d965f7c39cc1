import Jet3.Definition.ColumnType
import Mathlib.Algebra.Group.Nat.Defs

/-!
# Columns to create

The type of a column fixes the physical type, the storage and the size its record carries, so only
combinations the format has can be asked for.
-/

namespace Jet3

/-- Whether a column is stored at a fixed row offset or through the variable table. -/
inductive ColumnStorageKind where
  | fixed
  | variable
  deriving DecidableEq, Repr

/-- `NonZeroU8`. -/
abbrev NonZeroU8 : Type := { n : UInt8 // n ≠ 0 }

/-- The column types a caller can ask for. -/
inductive ColumnType where
  | boolean
  | byte
  | integer
  | long
  | autoIncrement
  | currency
  | single
  | double
  | dateTime
  | guid
  | text (maxLen : NonZeroU8)
  | fixedText (len : NonZeroU8)
  | binary (maxLen : NonZeroU8)
  | memo
  | longBinary
  deriving DecidableEq, Repr

namespace ColumnType

/-- The stored type; an AutoIncrement column stores a Long. -/
def physicalType : ColumnType → ColumnPhysicalType
  | boolean => .boolean
  | byte => .byte
  | integer => .integer
  | long | autoIncrement => .long
  | currency => .currency
  | single => .single
  | double => .double
  | dateTime => .dateTime
  | guid => .guid
  | text _ | fixedText _ => .text
  | binary _ => .binary
  | memo => .memo
  | longBinary => .longBinary

/-- Where a column of this type is stored in a row. -/
def storage : ColumnType → ColumnStorageKind
  | text _ | binary _ | memo | longBinary => .variable
  | _ => .fixed

/-- The fixed width, the declared length, or zero for long values. -/
def size : ColumnType → ℕ
  | boolean | byte => 1
  | integer => 2
  | long | autoIncrement | single => 4
  | currency | double | dateTime => 8
  | guid => 16
  | text len | fixedText len | binary len => len.val.toNat
  | memo | longBinary => 0

/-- A column type carries a size its physical type may declare. -/
theorem validSize (type : ColumnType) : type.physicalType.validSize type.size = true := by
  have hlen : ∀ len : NonZeroU8, 1 ≤ len.val.toNat ∧ len.val.toNat ≤ 255 := by
    intro len
    have hpos : len.val.toNat ≠ 0 := fun h => len.property (UInt8.toNat_inj.mp h)
    have hlt := len.val.toNat_lt
    omega
  cases type with
  | text len => exact decide_eq_true (hlen len)
  | fixedText len => exact decide_eq_true (hlen len)
  | binary len => exact decide_eq_true (hlen len)
  | _ => rfl

theorem size_lt (type : ColumnType) : type.size < 2 ^ 8 := by
  cases type with
  | text len => exact len.val.toNat_lt
  | fixedText len => exact len.val.toNat_lt
  | binary len => exact len.val.toNat_lt
  | _ => decide

/-- A variable column has a type a variable entry may hold. -/
theorem isVariable_of_storage {type : ColumnType} (h : type.storage = .variable) :
    type.physicalType.isVariable = true := by
  cases type <;> first | rfl | cases h

/-- A fixed column has a type that may occupy a fixed range. -/
theorem neverFixed_of_storage {type : ColumnType} (h : type.storage = .fixed) :
    type.physicalType.neverFixed = false := by
  cases type <;> first | rfl | cases h

end ColumnType

/-- One column to encode. -/
structure ColumnSpec where
  name : List UInt8
  columnType : ColumnType
  deriving DecidableEq, Repr

namespace ColumnSpec

/-- The stored type of the column. -/
def physicalType (column : ColumnSpec) : ColumnPhysicalType :=
  column.columnType.physicalType

/-- Where the column is stored in a row. -/
def storage (column : ColumnSpec) : ColumnStorageKind :=
  column.columnType.storage

/-- The size the column record states. -/
def size (column : ColumnSpec) : ℕ :=
  column.columnType.size

end ColumnSpec

end Jet3
