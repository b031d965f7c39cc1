import Jet3.Relationship.Database

/-!
# Referential integrity of a change that does not cascade

`check` compares the keys before and after a change of one row against every enforced relationship
of its table, and refuses the change when a child key would be left without a parent.
-/

namespace Jet3

open Outcome

/-- A change of one row. -/
inductive Change where
  | insert (values : List RowValue)
  | replace (row : RowLocator) (values : List RowValue)
  | field (row : RowLocator) (column : ColumnOrdinal) (value : RowValue)
  | delete (row : RowLocator)
  deriving DecidableEq

namespace Change

/-- Whether all values of a row are replaced. -/
def isReplace : Change → Bool
  | replace _ _ => true
  | _ => false

/-- Whether the row is deleted. -/
def isDelete : Change → Bool
  | delete _ => true
  | _ => false

/-- The row a change selects; an insertion selects none. -/
def locator : Change → Option RowLocator
  | insert _ => none
  | replace row _ | field row _ _ | delete row => some row

/-- `column_value`: the value a complete row has for a key column. -/
def columnValue (values : List RowValue) (column : ColumnOrdinal) : Except WriteError RowValue :=
  okOr values[column]? (.mismatch "relationship key absent from replacement")

/-- The value of a key column of an existing row after the change. -/
def existingValue (change : Change) (row : RowLocator) (column : ColumnOrdinal)
    (before : RowValue) : Except WriteError RowValue :=
  match change with
  | replace selected values => if selected = row then columnValue values column else .ok before
  | field selected changed replacement =>
    .ok (if selected = row ∧ changed = column then replacement else before)
  | _ => .ok before

/-- The key of an existing row after the change; `none` when the change deletes the row. -/
def existing (change : Change) (row : RowLocator) (columns : List ColumnOrdinal)
    (before : List RowValue) (kinds : List ScalarKeyType) :
    Except WriteError (Option (Option Key)) := do
  if change = delete row then return none else
  let values ← (columns.zip before).mapM fun (column, before) =>
    change.existingValue row column before
  let key ← Key.encode kinds values
  return some key

/-- The change assigns a key column of this row, if only to the value it holds. -/
def assigns (change : Change) (row : RowLocator) (columns : List ColumnOrdinal) : Bool :=
  match change with
  | delete selected | replace selected _ => selected = row
  | field selected column _ => selected = row ∧ column ∈ columns
  | insert _ => false

/-- The change a row update checks: a replacement that asks for the next AutoNumber was lowered to
the stored one before. -/
def lowered (autoIncrement : ColumnOrdinal → Bool) (stored : StoredRow) : Change → Change
  | replace row values => replace row (values.mapIdx fun column value =>
      if value = .autoIncrement ∧ autoIncrement column then stored.values[column]?.getD value
      else value)
  | change => change

end Change

namespace Mutation

/-- The keys of one side of a constraint before and after a change. -/
structure Keys where
  before : List Key
  after : List Key
  hasOtherNullAfter : Bool
  replacedAfter : Option Key
  assignedNull : Bool
  assigned : List Key

/-- The key of a row after the change, if there is one and the row is still there. -/
def afterKey (change : Option Change) (row : RowLocator) (columns : List ColumnOrdinal)
    (before : List RowValue) (kinds : List ScalarKeyType) :
    Except WriteError (Option (Option Key)) :=
  match change with
  | some change => change.existing row columns before kinds
  | none => some <$> Key.encode kinds before

/-- The keys of a row before and after the change. -/
def rowKeys (columns : List ColumnOrdinal) (kinds : List ScalarKeyType) (change : Option Change)
    (row : StoredRow) : Except WriteError (Option Key × Option (Option Key)) := do
  let values ← row.keyValues columns
  let before ← Key.encode kinds values
  let after ← afterKey change row.locator columns values kinds
  return (before, after)

/-- The row is the replaced one, and is to be left out. -/
def isReplaced (change : Option Change) (excludeReplacement : Bool) (row : StoredRow) : Bool :=
  excludeReplacement && change.any fun change =>
    change.isReplace && change.locator = some row.locator

/-- Whether the change gives the row a value in one of the columns. -/
def isAssigned (columns : List ColumnOrdinal) (change : Option Change) (row : StoredRow) : Bool :=
  change.any fun change => change.assigns row.locator columns

/-- Adds the keys of one row. -/
def addRow (columns : List ColumnOrdinal) (kinds : List ScalarKeyType) (change : Option Change)
    (excludeReplacement : Bool) (keys : Keys) (row : StoredRow) : Except WriteError Keys := do
  let (before, after) ← rowKeys columns kinds change row
  let replaced := isReplaced change excludeReplacement row
  let assigned := isAssigned columns change row
  return {
    before := keys.before ++ before.toList
    after := if replaced then keys.after else keys.after ++ after.join.toList
    hasOtherNullAfter := keys.hasOtherNullAfter || (!replaced && after == some none)
    replacedAfter := if replaced then after.getD keys.replacedAfter else keys.replacedAfter
    assignedNull := keys.assignedNull || (assigned && before.isNone)
    assigned := if assigned then keys.assigned ++ before.toList else keys.assigned }

/-- Adds the key of an inserted row. -/
def addInserted (columns : List ColumnOrdinal) (kinds : List ScalarKeyType)
    (change : Option Change) (keys : Keys) : Except WriteError Keys := do
  match change with
  | some (.insert values) =>
    let key ← columns.mapM (Change.columnValue values)
    let inserted ← Key.encode kinds key
    return { keys with
      after := keys.after ++ inserted.toList
      hasOtherNullAfter := keys.hasOtherNullAfter || inserted.isNone }
  | _ => return keys

/-- The sorted keys of a table as it stands after the change. -/
def keys (table : StoredTable) (columns : List ColumnOrdinal) (kinds : List ScalarKeyType)
    (change : Option Change) (excludeReplacement : Bool) : Except WriteError Keys := do
  let keys ← table.rows.foldlM (addRow columns kinds change excludeReplacement)
    { before := [], after := [], hasOtherNullAfter := false, replacedAfter := none
      assignedNull := false, assigned := [] }
  addInserted columns kinds change keys

/-- The change as one side of a constraint sees it. -/
def changeOf (target : PageNumber) (change : Change) (table : PageNumber) : Option Change :=
  if table = target then some change else none

/-- The keys of the parent side. -/
def parentKeys (database : Database) (target : PageNumber) (change : Change)
    (constraint : Constraint) : Except WriteError Keys :=
  keys (database constraint.parent) constraint.parentColumns constraint.parentKinds
    (changeOf target change constraint.parent) false

/-- The keys of the child side. A self-referencing constraint whose parent tree comes first leaves
the replaced row out until its own assignment was checked. -/
def childKeys (database : Database) (target : PageNumber) (change : Change)
    (constraint : Constraint) : Except WriteError Keys :=
  keys (database constraint.child) constraint.childColumns constraint.childKinds
    (changeOf target change constraint.child)
    (constraint.parent = constraint.child && !constraint.selfReferenceRequiresExistingParent)

/-- A child key without a parent refuses the change. -/
def refuseMissing (constraint : Constraint) : Option Key → Except WriteError Unit
  | some value => .error (value.violation constraint.parent constraint.child)
  | none => .ok ()

/-- A missing key is refused. -/
@[simp]
theorem refuseMissing_ok_iff {constraint : Constraint} {missing : Option Key} {u : Unit} :
    refuseMissing constraint missing = .ok u ↔ missing = none := by
  cases missing <;> simp [refuseMissing]

/-- Checks one constraint against a change. -/
def checkConstraint (database : Database) (target : PageNumber) (change : Change)
    (constraint : Constraint) : Except WriteError Unit := do
  let parent ← parentKeys database target change constraint
  let child ← childKeys database target change constraint
  let parentBefore := Key.sort parent.before
  let parentAfter := Key.sort parent.after
  refuseIf (¬Key.unique parentBefore) (.mismatch "duplicate relationship parent key")
  refuseIf (Key.missing parentBefore child.before).isSome (.mismatch "orphan relationship key")
  -- parent assignments are checked even if the key is unchanged or another nullable parent has
  -- the same tuple
  refuseIf (parent.assignedNull ∧ child.hasOtherNullAfter)
    (.nullRelationshipConstraint constraint.parent constraint.child)
  let childAfter := Key.sort child.after
  forM parent.assigned fun key =>
    refuseIf (Key.contains childAfter key) (key.violation constraint.parent constraint.child)
  let childAfter := childAfter ++ child.replacedAfter.toList
  let missingAfter := Key.missing parentAfter childAfter
  let missingBefore :=
    if constraint.selfReferenceRequiresExistingParent then Key.missing parentBefore childAfter
    else none
  refuseMissing constraint (missingAfter.or missingBefore)

/-- The enforced constraints of the changed table, in catalog order. -/
def relevant (target : PageNumber) (constraints : List Constraint) : List Constraint :=
  constraints.filter fun constraint =>
    constraint.parent = target || constraint.child = target

/-- Checks every constraint that the target table takes part in. -/
def check (database : Database) (target : PageNumber) (constraints : List Constraint)
    (change : Change) : Except WriteError Unit :=
  forM (relevant target constraints) (checkConstraint database target change)

end Mutation

end Jet3
