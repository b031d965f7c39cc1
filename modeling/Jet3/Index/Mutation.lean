import Jet3.Index.Entry
import Jet3.Library.ByteOrder
import Jet3.Library.Search
import Jet3.Write.Error
import Mathlib.Data.List.Sort

/-!
# Index mutations

The entries of every index of a table, kept in record order while rows are inserted, removed and
replaced. An index remembers whether it changed and what happens to its counters.
-/

namespace Jet3

open Outcome
open scoped ByteOrder

/-- How a change of an index moves the two counters its table definition keeps for it. -/
inductive CounterChange where
  | increment
  | removeRelationshipEntry
  deriving DecidableEq, Repr

/-- An index while a statement runs: its entries in key order, and what has to be written at the
end. -/
structure MutableIndex where
  fields : List ScalarIndexField
  nullPolicy : IndexNullPolicy
  unique : Bool
  entries : List ScalarIndexEntry
  changed : Bool
  relationshipCounter : Bool
  counter : Option CounterChange
  deriving DecidableEq, Repr

/-- What a statement reports for a row that has no entry. -/
def entryError : EntryError → WriteError
  | .encoding error => .resource error
  | .nullRequired => .unsupported "null required index key"
  | .missingColumn _ => .mismatch "missing index key column"
  | .fieldCount _ => .unsupported "numeric index field count"
  | .unsupportedValue _ _ => .unsupported "numeric index value"

namespace MutableIndex

/-- The entry of a row with these values; rows the null policy leaves out have none. -/
def encode (index : MutableIndex) (values : List RowValue) (row : RowLocator) :
    Except WriteError (Option ScalarIndexEntry) :=
  (ScalarIndexEntry.encode index.fields values index.nullPolicy row).mapError entryError

/-- `insert`: uniqueness is decided by a search by key, the position by one by record. -/
def insert (index : MutableIndex) (entry : ScalarIndexEntry) (updateCounter : Bool) :
    Except WriteError MutableIndex := do
  let first := Search.partitionPoint (fun r => r.key < entry.key) index.entries
  let present := index.entries[first]?.any fun r => r.key = entry.key
  refuseIf (index.unique ∧ ¬entry.hasNull ∧ present) (.unsupported "duplicate unique key")
  let position := Search.partitionPoint (fun r => r.record < entry.record) index.entries
  return { index with
    entries := index.entries.insertIdx position entry
    changed := true
    counter := if updateCounter ∧ ¬present then some .increment else index.counter }

/-- Takes the entry of a row out; a row may lack an entry only where the null policy leaves rows
out. -/
def remove (index : MutableIndex) (row : RowLocator) : Except WriteError MutableIndex :=
  match index.entries.findIdx? fun r => r.locator = row with
  | some position =>
    .ok { index with entries := index.entries.eraseIdx position, changed := true }
  | none =>
    if index.nullPolicy ≠ .ignoreAllNull then .error (.notFound "indexed row") else .ok index

/-- Whether an assignment to these columns assigns a key field; without columns every field is
assigned. -/
def assigns (index : MutableIndex) : Option (List ℕ) → Bool
  | none => true
  | some columns => index.fields.any fun field => columns.contains field.column

/-- The step of `replace_selected` for one index. -/
def replace (index : MutableIndex) (row : RowLocator) (values : List RowValue)
    (columns : Option (List ℕ)) : Except WriteError MutableIndex := do
  let new ← index.encode values row
  let old := index.entries.find? fun r => r.locator = row
  let index := { index with
    counter := if index.relationshipCounter ∧ index.assigns columns
      then some .removeRelationshipEntry else index.counter }
  if old = new then return index else
  let index ← index.remove row
  match new with
  | some entry => index.insert entry false
  | none => return index

/-- Two neighbours with one key that holds no null. -/
def hasDuplicate (entries : List ScalarIndexEntry) : Bool :=
  (entries.zip entries.tail).any fun (a, b) => !a.hasNull && a.key == b.key

/-- The index of `load`: the entries of the stored rows in record order. The comparison with the
stored tree follows. -/
def load (fields : List ScalarIndexField) (nullPolicy : IndexNullPolicy) (unique : Bool)
    (relationshipCounter : Bool) (rows : List (RowLocator × List RowValue)) :
    Except WriteError MutableIndex := do
  let index := { fields, nullPolicy, unique, entries := [], changed := false
                 relationshipCounter, counter := none : MutableIndex }
  let encoded ← rows.mapM fun (row, values) => index.encode values row
  let entries := (encoded.filterMap id).insertionSort fun a b => a.record ≤ b.record
  refuseIf (unique ∧ hasDuplicate entries) (.mismatch "duplicate non-null unique index key")
  return { index with entries }

end MutableIndex

/-- The indexes of a table. -/
abbrev Indexes : Type := List MutableIndex

namespace Indexes

/-- Inserts a row into every index. -/
def insert (indexes : Indexes) (values : List RowValue) (row : RowLocator) :
    Except WriteError Indexes :=
  indexes.mapM fun index => do
    match ← index.encode values row with
    | some entry => index.insert entry true
    | none => return index

/-- Removes the entry of a row from every index; an index of a relationship counts one less. -/
def remove (indexes : Indexes) (row : RowLocator) : Except WriteError Indexes :=
  indexes.mapM fun index => do
    let index ← index.remove row
    return { index with
      counter := if index.relationshipCounter then some .removeRelationshipEntry
        else index.counter }

/-- Gives a row new values in every index one of whose columns changes. -/
def replaceSelected (indexes : Indexes) (row : RowLocator) (values : List RowValue)
    (columns : Option (List ℕ)) : Except WriteError Indexes :=
  indexes.mapM fun index => index.replace row values columns

/-- Gives a row new values in every index. -/
def replace (indexes : Indexes) (row : RowLocator) (values : List RowValue) :
    Except WriteError Indexes :=
  indexes.replaceSelected row values none

end Indexes

end Jet3
