import Jet3.Library.Bytes

/-!
# Row values

The values a row column can take. Floating-point values are their IEEE-754 bits: the modelled code
only tests them for finiteness and sign and compares their bits.
-/

namespace Jet3

/-- A value a caller stores in a row. -/
inductive RowValue where
  | null
  | autoIncrement
  | boolean (value : Bool)
  | byte (value : UInt8)
  | integer (value : Int16)
  | long (value : Int32)
  | currency (scaled : Int64)
  | single (bits : UInt32)
  | double (bits : UInt64)
  | dateTime (bits : UInt64)
  | binary (bytes : List UInt8)
  | text (bytes : List UInt8)
  | guid (bytes : Vector UInt8 16)
  | memo (bytes : List UInt8)
  | longBinary (bytes : List UInt8)
  | longValue (bytes : List UInt8)
  deriving DecidableEq, Repr

/-- The values a key field can hold. -/
def RowValue.isScalar : RowValue → Bool
  | .autoIncrement | .memo _ | .longBinary _ | .longValue _ => false
  | _ => true

/-- `f32::is_finite` of the value with these bits. -/
def isFiniteSingle (bits : UInt32) : Bool :=
  (bits >>> 23) &&& 0xff != 0xff

/-- `f64::is_finite` of the value with these bits. -/
def isFiniteDouble (bits : UInt64) : Bool :=
  (bits >>> 52) &&& 0x7ff != 0x7ff

/-- The direction of an index field. -/
inductive IndexDirection where
  | ascending
  | descending
  deriving DecidableEq, Repr

/-- The byte every directed byte is combined with: descending fields are complemented. -/
def IndexDirection.mask : IndexDirection → UInt8
  | ascending => 0
  | descending => 0xff

end Jet3
