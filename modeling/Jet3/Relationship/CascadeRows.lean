import Jet3.Relationship.Database

/-!
# Row snapshots of a cascade

The rows of every table of a relationship component, reduced to the columns some key uses. A field
keeps its value before the change and, once assigned, its value after it.
-/

namespace Jet3

open Outcome

namespace Cascade

/-- A copied scalar value. -/
structure Value where
  value : RowValue
  scalar : value.isScalar = true
  deriving DecidableEq

/-- Takes a value over, where it is of a type that keys have. -/
def Value.copy (value : RowValue) : Except WriteError Value :=
  if h : value.isScalar then .ok ⟨value, h⟩
  else .error (.unsupported "non-scalar cascade key")

/-- A copied value is the value. -/
theorem Value.copy_ok_iff {value : RowValue} {copied : Value} :
    Value.copy value = .ok copied ↔ copied.value = value := by
  unfold Value.copy
  split
  · rw [Except.ok.injEq]
    exact ⟨fun h => h ▸ rfl, fun h => by cases copied; cases h; rfl⟩
  · rename_i hscalar
    simp only [reduceCtorEq, false_iff]
    exact fun h => hscalar (h ▸ copied.scalar)

/-- Equality of stored values; floating-point values are compared by their bits. -/
def Value.equal (value : Value) (other : RowValue) : Bool :=
  value.value = other

/-- A key column of a row: its stored value, and the one it is given. -/
structure Field where
  column : ColumnOrdinal
  before : Value
  after : Option Value
  isExplicit : Bool
  deriving DecidableEq

/-- The value a field has once the change is applied. -/
def Field.current (field : Field) : Value :=
  field.after.getD field.before

/-- The key columns of a stored row, while a change is prepared. -/
structure Row where
  table : PageNumber
  locator : RowLocator
  fields : List Field
  deleted : Bool
  deriving DecidableEq

/-- Gives a field a value. One that the request names is not overwritten by a cascade. -/
def Field.assign (field : Field) (value : RowValue) (isExplicit : Bool) :
    Except WriteError (Field × Bool) := do
  if field.isExplicit ∧ ¬isExplicit then return (field, false) else
  let field := { field with isExplicit := field.isExplicit || isExplicit }
  if field.after.any (·.equal value) then return (field, false) else
  let copied ← Value.copy value
  return ({ field with after := some copied }, true)

namespace Row

/-- The field of a column. -/
def field (row : Row) (column : ColumnOrdinal) : Option Field :=
  row.fields.find? fun field => field.column = column

/-- The values of some columns, before or after the change. -/
def values (row : Row) (columns : List ColumnOrdinal) (after : Bool) :
    Except WriteError (List RowValue) := do
  refuseIf (columns.length > maxFields) (.mismatch "cascade key width")
  columns.mapM fun column => do
    let field ← okOr (row.field column) (.mismatch "cascade key column absent")
    return (if after then field.current else field.before).value

/-- The key of some columns, before or after the change. -/
def key (row : Row) (columns : List ColumnOrdinal) (kinds : List ScalarKeyType) (after : Bool) :
    Except WriteError (Option Key) := do
  let values ← row.values columns after
  Key.encode kinds values

/-- Whether the change touches one of the columns. -/
def assigned (row : Row) (columns : List ColumnOrdinal) : Bool :=
  row.deleted || row.fields.any fun field => field.after.isSome && columns.contains field.column

/-- Assigns the first field of a column. -/
def assignField (column : ColumnOrdinal) (value : RowValue) (isExplicit : Bool) :
    List Field → Except WriteError (List Field × Bool)
  | [] => .error (.mismatch "cascade assignment column absent")
  | field :: rest =>
    if field.column = column then do
      let (field, changed) ← field.assign value isExplicit
      return (field :: rest, changed)
    else do
      let (rest, changed) ← assignField column value isExplicit rest
      return (field :: rest, changed)

/-- Gives a column of the row a value, and says whether anything changed. -/
def assign (row : Row) (column : ColumnOrdinal) (value : RowValue) (isExplicit : Bool) :
    Except WriteError (Row × Bool) := do
  let (fields, changed) ← assignField column value isExplicit row.fields
  return ({ row with fields }, changed)

/-- A long integer is a scalar. -/
theorem isScalar_long (value : Int32) : (RowValue.long value).isScalar = true :=
  rfl

/-- A text is one too. -/
theorem isScalar_text (text : List UInt8) : (RowValue.text text).isScalar = true :=
  rfl

/-- A row of long-integer fields, in column order. -/
def ofLongs (table : PageNumber) (slot : UInt8) (values : List Int32) : Row where
  table := table
  locator := { page := table + 1, slot := slot }
  fields := values.zipIdx.map fun (value, column) =>
    { column := column, before := ⟨.long value, rfl⟩, after := none, isExplicit := false }
  deleted := false

end Row

/-- A row without assignments has something to propagate exactly when it is deleted. -/
theorem assigned_of_fresh {row : Row} (hrow : ∀ field ∈ row.fields, field.after = none)
    (columns : List ColumnOrdinal) (deleted : Bool) :
    { row with deleted }.assigned columns = deleted := by
  have hfields : (row.fields.any fun field => field.after.isSome && columns.contains field.column)
      = false := by
    rw [List.any_eq_false]
    intro field hfield
    simp [hrow field hfield]
  rw [Row.assigned, hfields, Bool.or_false]

/-! ## Loading -/

/-- Adds a table once. -/
def addTable (roots : List PageNumber) (table : PageNumber) : List PageNumber :=
  if table ∈ roots then roots else roots ++ [table]

/-- The tables of a component, in the order the constraints name them. -/
def tables (constraints : List Constraint) : List PageNumber :=
  (constraints.flatMap fun constraint => [constraint.parent, constraint.child]).foldl addTable []

/-- A constraint uses this column of the table as a key column. -/
def usesColumn (constraint : Constraint) (table : PageNumber) (column : ColumnOrdinal) : Bool :=
  (constraint.parent = table && constraint.parentColumns.contains column) ||
    (constraint.child = table && constraint.childColumns.contains column)

/-- The columns of a table some key uses, in ordinal order. -/
def keyColumns (constraints : List Constraint) (table : PageNumber) :
    Except WriteError (List ColumnOrdinal) := do
  refuseIf (∃ constraint ∈ constraints,
      (constraint.parent = table ∧ ∃ column ∈ constraint.parentColumns, 255 ≤ column) ∨
      (constraint.child = table ∧ ∃ column ∈ constraint.childColumns, 255 ≤ column))
    (.unsupported "cascade column ordinal")
  return (List.range 255).filter fun column =>
    constraints.any fun constraint => usesColumn constraint table column

/-- Loads one column of a stored row. -/
def loadField (row : StoredRow) (column : ColumnOrdinal) : Except WriteError Field := do
  let value ← row.readColumn column
  let before ← Value.copy value
  return { column, before, after := none, isExplicit := false }

/-- Loads the key columns of a stored row. -/
def loadRow (table : PageNumber) (columns : List ColumnOrdinal) (row : StoredRow) :
    Except WriteError Row := do
  let fields ← columns.mapM (loadField row)
  return { table, locator := row.locator, fields, deleted := false }

/-- Loads the rows of a table. -/
def loadTable (database : Database) (constraints : List Constraint) (table : PageNumber) :
    Except WriteError (List Row) := do
  let columns ← keyColumns constraints table
  (database table).rows.mapM (loadRow table columns)

/-- Snapshots of every row of the component's tables. -/
def load (database : Database) (constraints : List Constraint) : Except WriteError (List Row) :=
  List.flatten <$> (tables constraints).mapM (loadTable database constraints)

/-- Key equality: two absent keys are equal. -/
def equal (left right : Option Key) : Bool :=
  left.map Key.bytes = right.map Key.bytes

/-! ## Ties between rows -/

/-- No row of a loaded component is deleted or assigned. -/
def Fresh (rows : List Row) : Prop :=
  ∀ row ∈ rows, row.deleted = false ∧
    ∀ field ∈ row.fields, field.after = none ∧ field.isExplicit = false

/-- The two rows hold the same key of a constraint before the change; two absent keys are equal. -/
def sameKey (constraint : Constraint) (parent child : Row) : Bool :=
  match parent.key constraint.parentColumns constraint.parentKinds false,
    child.key constraint.childColumns constraint.childKinds false with
  | .ok parentKey, .ok childKey => equal parentKey childKey
  | _, _ => false

/-- A constraint ties a child row to a parent row. -/
def ties (constraint : Constraint) (parent child : Row) : Bool :=
  parent.table == constraint.parent && child.table == constraint.child &&
    sameKey constraint parent child

/-- Some constraint that cascades this kind of change ties the row at `j` to the row at `i`. -/
def Feeds (constraints : List Constraint) (deleted : Bool) (rows : List Row) (i j : ℕ) : Prop :=
  ∃ constraint ∈ constraints, constraint.cascades deleted = true ∧
    ∃ parent child, rows[i]? = some parent ∧ rows[j]? = some child ∧
      ties constraint parent child = true

/-- Every key column some constraint reads encodes before the change. -/
def Encodes (constraints : List Constraint) (rows : List Row) : Prop :=
  ∀ constraint ∈ constraints, ∀ row ∈ rows,
    (row.table = constraint.parent →
      ∃ key, row.key constraint.parentColumns constraint.parentKinds false = .ok key) ∧
    (row.table = constraint.child →
      ∃ key, row.key constraint.childColumns constraint.childKinds false = .ok key)

end Cascade

end Jet3
