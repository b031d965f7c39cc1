import Jet3.Relationship.Catalog

/-!
# Stored rows

The rows the relationship checks read: the scalar values of the logical rows of each table, in the
order of the row cursor. The cursor visits every row once, so the locators of a table differ.
-/

namespace Jet3

open Outcome

/-- A logical row, its values by column ordinal. -/
structure StoredRow where
  locator : RowLocator
  values : List RowValue
  deriving DecidableEq, Repr

/-- The rows of a table, each at its own place. -/
structure StoredTable where
  rows : List StoredRow
  locators_nodup : (rows.map StoredRow.locator).Nodup

/-- The tables of a file, by the page of their definition. -/
abbrev Database : Type := PageNumber → StoredTable

namespace StoredRow

/-- `read_column`: the value of a column as an index key reads it. -/
def readColumn (row : StoredRow) (column : ColumnOrdinal) : Except WriteError RowValue := do
  let value ← okOr row.values[column]? (.notFound "index key column")
  refuseIf (¬value.isScalar) (.unsupported "non-numeric index value")
  return value

/-- `key_values`: the values of the key columns. -/
def keyValues (row : StoredRow) (columns : List ColumnOrdinal) :
    Except WriteError (List RowValue) := do
  refuseIf (columns.length > maxFields) (.mismatch "relationship key field count")
  columns.mapM row.readColumn

end StoredRow

end Jet3
