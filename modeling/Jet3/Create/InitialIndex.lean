import Jet3.Relationship.Key

/-!
# Indexes of new tables

The entries of an index are collected row by row while a table is created, sorted by their records,
and searched when the rows of another table refer to them.
-/

namespace Jet3

open Outcome
open scoped ByteOrder

/-- Why the rows of a new table cannot be indexed. -/
inductive InitialIndexError where
  | unsupportedInitialIndexSchema
  | nullInitialIndexKey (row : ℕ)
  | unsupportedInitialIndexValue (row column : ℕ)
  | duplicateInitialScalarIndexKey
  | duplicateInitialIndexKey (value : Int32)
  | duplicateInitialCompositeIndexKey (first second : Int32)
  | encoding (source : Error)
  deriving DecidableEq, Repr

/-- An index of a new table and the entries of the rows it has seen. -/
structure InitialScalarIndex where
  fields : List ScalarIndexField
  unique : Bool
  nullPolicy : IndexNullPolicy
  entries : List ScalarIndexEntry
  nextRow : ℕ
  distinct : ℕ
  deriving DecidableEq, Repr

namespace InitialScalarIndex

/-- `for_index`, with the columns of the index resolved. -/
def forIndex (fields : List ScalarIndexField) (unique : Bool) (nullPolicy : IndexNullPolicy)
    (rowCount : ℕ) : Except InitialIndexError InitialScalarIndex := do
  refuseIf (¬(1 ≤ fields.length ∧ fields.length ≤ maxFields)) .unsupportedInitialIndexSchema
  refuseIf (¬rowCount < 2 ^ 32) (.encoding (.integerConversion rowCount "u32 initial row count"))
  return { fields, unique, nullPolicy, entries := [], nextRow := 0, distinct := 0 }

/-- What a failure of the entry encoder is to the creation of a table. -/
def pushError (row : ℕ) : EntryError → InitialIndexError
  | .encoding error => .encoding error
  | .nullRequired => .nullInitialIndexKey row
  | .unsupportedValue column kind =>
    if kind ≠ .long then .unsupportedInitialIndexValue row column
      else .unsupportedInitialIndexSchema
  | .fieldCount _ | .missingColumn _ => .unsupportedInitialIndexSchema

/-- Adds the entry of the next row. -/
def push (index : InitialScalarIndex) (row : List RowValue × RowLocator) :
    Except InitialIndexError InitialScalarIndex := do
  let entry ← (ScalarIndexEntry.encode index.fields row.1 index.nullPolicy row.2).mapError
    (pushError index.nextRow)
  return { index with nextRow := index.nextRow + 1, entries := index.entries ++ entry.toList }

/-- The bytes a Long component takes. -/
def componentBytes : ℕ := 5

/-- The value of the Long component at `position` of a key. -/
def longAt (field : ScalarIndexField) (key : List UInt8) (position : ℕ) : Int32 :=
  let raw := ((key.drop (position * componentBytes + 1)).take 4).map (· ^^^ field.direction.mask)
  Int32.ofNat (beValue (flipSign raw))

/-- Two rows of a unique index with one key. -/
def duplicateError (index : InitialScalarIndex) (key : List UInt8) : InitialIndexError :=
  if index.fields.length > 2 ∨ ∃ field ∈ index.fields, field.kind ≠ .long then
    .duplicateInitialScalarIndexKey
  else
    match index.fields with
    | [first, second] =>
      .duplicateInitialCompositeIndexKey (longAt first key 0) (longAt second key 1)
    | [field] => .duplicateInitialIndexKey (longAt field key 0)
    | _ => .duplicateInitialScalarIndexKey

/-- Counts the different keys of sorted entries, and refuses equal ones in a unique index. -/
def countDistinct (index : InitialScalarIndex) : List ScalarIndexEntry → Except InitialIndexError ℕ
  | a :: b :: rest => do
    if a.key = b.key then
      refuseIf (index.unique ∧ b.hasNull = false) (index.duplicateError b.key)
      countDistinct index (b :: rest)
    else
      let count ← countDistinct index (b :: rest)
      return count + 1
  | [_] => return 1
  | [] => return 0

/-- Sorts the entries by their records. -/
def sort (index : InitialScalarIndex) : Except InitialIndexError InitialScalarIndex := do
  let entries := index.entries.insertionSort fun a b => a.record ≤ b.record
  let distinct ← countDistinct index entries
  return { index with entries, distinct }

/-- Whether an entry has a key. -/
def holds (index : InitialScalarIndex) (key : List UInt8) : Bool :=
  match Search.binarySearchBy (fun entry => compareBytes entry.key key) index.entries with
  | .ok _ => true
  | .error _ => false

/-- `contains_single_key`. -/
def containsSingleKey (index : InitialScalarIndex) (kind : ScalarKeyType) (value : RowValue) :
    Except InitialIndexError Bool :=
  match index.fields with
  | [field] => do
    refuseIf (compatible field.kind kind = false) .unsupportedInitialIndexSchema
    let key ← okOr (kind.encode value field.direction) .unsupportedInitialIndexSchema
    return index.holds (Binary.shorten key)
  | _ => .error .unsupportedInitialIndexSchema

/-- The fields of a lookup: the directions of the index, and the column types of the tuple looked
up. -/
def lookupFields (fields : List ScalarIndexField) (kinds : List ScalarKeyType) :
    List ScalarIndexField :=
  ((fields.zip kinds).zipIdx).map fun entry =>
    { column := entry.2, direction := entry.1.1.direction, kind := entry.1.2 }

/-- `contains_key`. -/
def containsKey (index : InitialScalarIndex) (kinds : List ScalarKeyType) (values : List RowValue) :
    Except InitialIndexError Bool := do
  refuseIf (kinds.length ≠ index.fields.length ∨ values.length ≠ index.fields.length)
    .unsupportedInitialIndexSchema
  match kinds, values with
  | [kind], [value] => index.containsSingleKey kind value
  | _, _ => do
    forM (index.fields.zip kinds) fun entry =>
      refuseIf (compatible entry.1.kind entry.2 = false) .unsupportedInitialIndexSchema
    let key ← (ScalarIndexEntry.encode (lookupFields index.fields kinds) values .include
      { page := 0, slot := 0 }).mapError fun
        | .encoding error => .encoding error
        | _ => .unsupportedInitialIndexSchema
    let key ← okOr key .unsupportedInitialIndexSchema
    return index.holds key.key

/-- The index of a table with its rows. -/
def build (fields : List ScalarIndexField) (unique : Bool) (nullPolicy : IndexNullPolicy)
    (rows : List (List RowValue × RowLocator)) : Except InitialIndexError InitialScalarIndex := do
  let index ← forIndex fields unique nullPolicy rows.length
  let index ← rows.foldlM push index
  index.sort

end InitialScalarIndex

end Jet3
