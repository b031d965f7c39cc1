import Jet3.Index.Key.Scalar
import Jet3.Library.Outcome
import Jet3.Row.Directory

/-!
# Index entries

An index entry is the key of a row followed by the row's locator: a three-byte page and a one-byte
slot. `ScalarIndexEntry.encode` builds it from the indexed columns of a complete row.
-/

namespace Jet3

open Outcome

/-- What an index does with a row whose key columns are null. -/
inductive IndexNullPolicy where
  | include
  | ignoreAllNull
  | required
  deriving DecidableEq, Repr

/-- The key slots of a physical index. -/
def maxFields : ℕ := 10

/-- A stored locator is three bytes of a page and one of a row. -/
def locatorBytes : ℕ := 4

/-- The longest entry is a full key and its locator. -/
def entryCapacity : ℕ := maxKeyBytes + locatorBytes

/-- A key column: its place in the row, its direction and the encoding of its values. -/
structure ScalarIndexField where
  column : ℕ
  direction : IndexDirection
  kind : ScalarKeyType
  deriving DecidableEq, Repr

/-- Why a row has no entry. -/
inductive EntryError where
  | fieldCount (actual : ℕ)
  | missingColumn (column : ℕ)
  | unsupportedValue (column : ℕ) (kind : ScalarKeyType)
  | nullRequired
  | encoding (source : Error)
  deriving DecidableEq, Repr

/-- An index entry. The source stores the key and the locator in one buffer; `record` is that
buffer. -/
structure ScalarIndexEntry where
  key : List UInt8
  locator : RowLocator
  hasNull : Bool
  deriving DecidableEq, Repr

/-- The stored form of a locator. -/
def RowLocator.bytes (locator : RowLocator) : List UInt8 :=
  beBytes 3 locator.page ++ [locator.slot]

/-- What the loop over the fields of an entry accumulates. -/
structure KeyAccumulator where
  key : List UInt8
  hasNull : Bool
  allNull : Bool

namespace ScalarIndexEntry

/-- The stored record: the key followed by the locator. -/
def record (entry : ScalarIndexEntry) : List UInt8 :=
  entry.key ++ entry.locator.bytes

/-- Adds the component of one field. -/
def encodeField (values : List RowValue) (state : KeyAccumulator) (field : ScalarIndexField) :
    Except EntryError KeyAccumulator := do
  let value ← okOr values[field.column]? (.missingColumn field.column)
  let null := field.kind.isNull value
  let component ← okOr (field.kind.encode value field.direction)
    (.unsupportedValue field.column field.kind)
  return { key := state.key ++ component, hasNull := state.hasNull || null
           allNull := state.allNull && null }

/-- Encodes up to ten fields from a complete row. An all-null key is omitted only by
`ignoreAllNull`; uniqueness and the order of entries belong to the caller. -/
def encode (fields : List ScalarIndexField) (values : List RowValue)
    (nullPolicy : IndexNullPolicy) (locator : RowLocator) :
    Except EntryError (Option ScalarIndexEntry) := do
  refuseIf (¬(1 ≤ fields.length ∧ fields.length ≤ maxFields)) (.fieldCount fields.length)
  refuseIf (locator.page > 0x00ffffff)
    (.encoding (.integerConversion locator.page "24-bit index row page"))
  let state ← fields.foldlM (encodeField values) { key := [], hasNull := false, allNull := true }
  refuseIf (state.hasNull ∧ nullPolicy = .required) .nullRequired
  if state.allNull ∧ nullPolicy = .ignoreAllNull then return none
  else return some { key := Binary.shorten state.key, locator, hasNull := state.hasNull }

end ScalarIndexEntry

end Jet3
