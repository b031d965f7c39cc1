import Jet3.Index.Key.Binary
import Jet3.Index.Key.LocaleText

/-!
# Scalar key components

One key component per indexed column: a marker byte for null or present, then the value in an
order-preserving form. Descending components are complemented.
-/

namespace Jet3

/-- The types of key columns, texts and binaries with their maximum lengths. -/
inductive ScalarKeyType where
  | boolean
  | byte
  | integer
  | long
  | currency
  | single
  | double
  | dateTime
  | binary (maxLen : UInt8)
  | text (maxLen : UInt8) (sortOrder : SortOrder)
  | guid
  deriving DecidableEq, Repr

/-- The bytes of a number with the top bit of the first one flipped, so that signed numbers order
as their bytes do. -/
def flipSign : List UInt8 → List UInt8
  | [] => []
  | byte :: rest => (byte ^^^ 0x80) :: rest

namespace ScalarKeyType

/-- Whether the values are byte strings. -/
def isBinary : ScalarKeyType → Bool
  | binary _ => true
  | _ => false

/-- Whether the key has no value: null, and an empty binary. -/
def isNull (kind : ScalarKeyType) (value : RowValue) : Bool :=
  (value = .null ∧ kind ≠ boolean) ∨ (kind.isBinary ∧ value = .binary [])

/-- The undirected bytes of a component other than text and binary data. -/
def plain : ScalarKeyType → RowValue → Option (List UInt8)
  -- a null Boolean assignment stores False, also in an indexed key
  | boolean, .null => some [0x7f, 0xff]
  | _, .null => some [0]
  | boolean, .boolean value => some [0x7f, if value then 0 else 0xff]
  | byte, .byte value => some [0x7f, value]
  | integer, .integer value => some (0x7f :: flipSign (beBytes 2 value.toUInt16.toNat))
  | long, .long value => some (0x7f :: flipSign (beBytes 4 value.toUInt32.toNat))
  | currency, .currency scaled => some (0x7f :: flipSign (beBytes 8 scaled.toUInt64.toNat))
  | single, .single bits =>
    if isFiniteSingle bits then
      let ordered := if bits >>> 31 = 1 then ~~~bits else bits ^^^ 0x80000000
      some (0x7f :: beBytes 4 ordered.toNat)
    else none
  | double, .double bits | dateTime, .dateTime bits =>
    if isFiniteDouble bits then
      let ordered := if bits >>> 63 = 1 then ~~~bits else bits ^^^ 0x8000000000000000
      some (0x7f :: beBytes 8 ordered.toNat)
    else none
  | _, _ => none

/-- The key of one value, or none where the value is not of the type. -/
def encode (kind : ScalarKeyType) (value : RowValue) (direction : IndexDirection) :
    Option (List UInt8) :=
  match kind, value with
  | binary maxLen, .binary bytes => Binary.encode bytes maxLen.toNat direction
  | text maxLen sortOrder, .text bytes => LocaleText.encode bytes maxLen direction sortOrder
  | guid, .guid bytes => Binary.encode bytes.toList 16 direction
  | kind, value => (plain kind value).map (List.map (· ^^^ direction.mask))

end ScalarKeyType

end Jet3
