import Jet3.LongValue.Reader
import Jet3.Row.ReaderLayout
import Jet3.Row.Value

/-!
# Decoded values

The typed value of one field of a row. It retains the bytes it was decoded from.
-/

namespace Jet3

open Outcome

/-- The interpreted portion of one value. -/
inductive ValueKind where
  | null
  | boolean (value : Bool)
  | byte (value : UInt8)
  | integer (value : Int16)
  | long (value : Int32)
  | currency (scaled : Int64)
  | single (bits : UInt32)
  | double (bits : UInt64)
  | dateTime (bits : UInt64)
  | binary (bytes : List UInt8)
  | text (value : DecodedText)
  | guid (displayBytes : Vector UInt8 16)
  | longValue (value : LongValue)
  deriving DecidableEq, Repr

/-- The value of a column, with the bytes it was read from. -/
structure DecodedValue where
  raw : Option (List UInt8)
  kind : ValueKind
  deriving DecidableEq, Repr

/-- Why the bytes of a column have no value. -/
inductive ValueError where
  | invalidWidth (physicalType : ColumnPhysicalType) (expected actual : ℕ)
  | text (source : TextError)
  | longValue (source : LongValueError)
  | arithmetic (operation : String)
  deriving DecidableEq, Repr

/-- How reading a value ends when it does not succeed. -/
inductive ValueFault where
  | fault (source : RowFault)
  | error (source : ValueError)
  deriving DecidableEq, Repr

/-- The bytes of a value of fixed width. -/
def expectWidth (physicalType : ColumnPhysicalType) (raw : List UInt8) (expected : ℕ) :
    Except ValueError Unit :=
  refuseIf (raw.length ≠ expected) (.invalidWidth physicalType expected raw.length)

/-- `take_array`, read as a little-endian number. -/
def takeNumber (physicalType : ColumnPhysicalType) (raw : List UInt8) (width : ℕ) :
    Except ValueError ℕ := do
  expectWidth physicalType raw width
  return leValue raw

/-- A GUID in conventional display order. -/
def displayBytes (raw : List UInt8) : Vector UInt8 16 :=
  #v[byteAt raw 3, byteAt raw 2, byteAt raw 1, byteAt raw 0, byteAt raw 5, byteAt raw 4,
    byteAt raw 7, byteAt raw 6, byteAt raw 8, byteAt raw 9, byteAt raw 10, byteAt raw 11,
    byteAt raw 12,
    byteAt raw 13, byteAt raw 14, byteAt raw 15]

/-- The interpretation of present bytes. -/
def decodeValueKind (physicalType : ColumnPhysicalType) (raw : List UInt8) (booleanBit : Bool)
    (source : RowLocator) (codePage : TextCodePage) : Except ValueError ValueKind :=
  match physicalType with
  | .boolean => do
    expectWidth physicalType raw 0
    return .boolean booleanBit
  | .byte => do
    let number ← takeNumber physicalType raw 1
    return .byte (UInt8.ofNat number)
  | .integer => do
    let number ← takeNumber physicalType raw 2
    return .integer (UInt16.ofNat number).toInt16
  | .long => do
    let number ← takeNumber physicalType raw 4
    return .long (UInt32.ofNat number).toInt32
  | .currency => do
    let number ← takeNumber physicalType raw 8
    return .currency (UInt64.ofNat number).toInt64
  | .single => do
    let number ← takeNumber physicalType raw 4
    return .single (UInt32.ofNat number)
  | .double => do
    let number ← takeNumber physicalType raw 8
    return .double (UInt64.ofNat number)
  | .dateTime => do
    let number ← takeNumber physicalType raw 8
    return .dateTime (UInt64.ofNat number)
  | .binary => .ok (.binary raw)
  | .text => do
    let text ← (decodeText raw codePage).mapError .text
    return .text text
  | .guid => do
    expectWidth physicalType raw 16
    return .guid (displayBytes raw)
  | .longBinary => do
    let value ← (LongValue.decode raw source .ole codePage).mapError .longValue
    return .longValue value
  | .memo => do
    let value ← (LongValue.decode raw source .memo codePage).mapError .longValue
    return .longValue value

/-- The value of a stored column; a Boolean has its value in the null map. -/
def decodeValue (physicalType : ColumnPhysicalType) (field : RawField) (booleanBit : Bool)
    (source : RowLocator) (codePage : TextCodePage) : Except ValueError DecodedValue :=
  match field with
  | .null => .ok { raw := none, kind := .null }
  | .bytes raw => do
    let kind ← decodeValueKind physicalType raw booleanBit source codePage
    return { raw := some raw, kind }

namespace RowView

/-- The field `value` decodes. A present column without a slot in the row is an error here. -/
def presentField (view : RowView) (column : ColumnDefinition) : Except ValueFault RawField :=
  if column.physicalType = .boolean then do
    let empty ← (sliceBytes view.raw view.layout.fixedBoundary
      view.layout.fixedBoundary).mapError .fault
    return .bytes empty
  else if view.layout.present view.raw column.storageOrdinal then do
    let range ← (view.fieldRange column).mapError .fault
    let range ← okOr range (.error (.arithmetic "access validated variable field"))
    let raw ← (sliceBytes view.raw range.1 range.2).mapError .fault
    return .bytes raw
  else .ok .null

/-- `value`: one decoded field, or nothing for an unknown ordinal. -/
def value (view : RowView) (source : RowLocator) (ordinal : ℕ) (codePage : TextCodePage) :
    Except ValueFault (Option DecodedValue) :=
  match view.definition.columns[ordinal]? with
  | none => .ok none
  | some column => do
    let field ← view.presentField column
    let decoded ← (decodeValue column.physicalType field
      (view.layout.present view.raw column.storageOrdinal) source codePage).mapError .error
    return some decoded

/-- A value is decoded from the field that `field` gives. -/
theorem value_of_field {view : RowView} {ordinal : ℕ} {column : ColumnDefinition} {raw : RawField}
    (source : RowLocator) (codePage : TextCodePage)
    (hcolumn : view.definition.columns[ordinal]? = some column)
    (h : view.field ordinal = .ok (some raw)) :
    view.value source ordinal codePage =
      ((decodeValue column.physicalType raw (view.layout.present view.raw column.storageOrdinal)
        source codePage).mapError .error).map some := by
  -- the field and the value look at the row in the same way
  have hpresent : view.presentField column = .ok raw := by
    unfold field at h
    rw [hcolumn] at h
    unfold presentField
    dsimp only at h
    split at h
    next htype =>
      rw [if_pos htype]
      simp only [bind_ok_iff, pure_ok_iff, Option.some.injEq] at h
      obtain ⟨empty, hempty, rfl⟩ := h
      rw [hempty]
      rfl
    next htype =>
      rw [if_neg htype]
      split at h
      next hbit =>
        rw [if_pos hbit]
        simp only [bind_ok_iff] at h
        obtain ⟨range, hrange, h⟩ := h
        cases range with
        | none => cases h
        | some range =>
          simp only [bind_ok_iff, pure_ok_iff, Option.some.injEq] at h
          obtain ⟨bytes, hbytes, rfl⟩ := h
          rw [hrange]
          simp only [Except.mapError, bind, Except.bind, okOr, hbytes]
          rfl
      next hbit =>
        rw [if_neg hbit]
        cases h
        rfl
  rw [value, hcolumn]
  dsimp only
  rw [hpresent]
  cases hdecoded : decodeValue column.physicalType raw
      (view.layout.present view.raw column.storageOrdinal) source codePage with
  | error e => simp [bind, Except.bind, hdecoded, Except.mapError, Except.map]
  | ok decoded => simp [bind, Except.bind, pure, Except.pure, hdecoded, Except.mapError, Except.map]

end RowView

end Jet3
