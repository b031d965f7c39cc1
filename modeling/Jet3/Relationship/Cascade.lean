import Jet3.Library.Worklist
import Jet3.Relationship.CascadeRows
import Jet3.Relationship.Mutation

/-!
# Cascading changes

The complete related-row result of a change, computed on row snapshots before any write is staged:
the request is assigned to the selected row, assignments and deletions are propagated along the
cascading constraints, and what is left must satisfy every constraint.
-/

namespace Jet3

open Outcome

namespace Cascade

/-- Assigns one key column of a child, and remembers whether the row changed. -/
def assignColumn (state : Row × Bool) (pair : ColumnOrdinal × Value) :
    Except WriteError (Row × Bool) := do
  let (child, assigned) ← state.1.assign pair.1 pair.2.value false
  return (child, state.2 || assigned)

/-- What one child row of `constraint` receives from a parent whose key was `before`: its deletion,
or the parent's current values. Also tells whether the row changed. -/
def propagateChild (constraint : Constraint) (deleted : Bool) (before : Option Key)
    (replacements : List Value) (child : Row) : Except WriteError (Row × Bool) := do
  if child.table ≠ constraint.child ∨ child.deleted then return (child, false) else
  let key ← child.key constraint.childColumns constraint.childKinds false
  if ¬equal before key then return (child, false) else
  if deleted then return ({ child with deleted := true }, true) else
  (constraint.childColumns.zip replacements).foldlM assignColumn (child, false)

/-- The values a changed parent hands to its children; a deleted one hands none. -/
def replacements (constraint : Constraint) (parent : Row) : Except WriteError (List Value) := do
  if parent.deleted then return [] else
  let values ← parent.values constraint.parentColumns true
  values.mapM Value.copy

/-- The rows and the queue after the row at `position` went through `constraint`. -/
def propagateConstraint (position : ℕ) (state : List Row × List ℕ) (constraint : Constraint) :
    Except WriteError (List Row × List ℕ) := do
  let (rows, queue) := state
  match rows[position]? with
  | none => return state
  | some parent =>
    if parent.table ≠ constraint.parent ∨ ¬parent.assigned constraint.parentColumns ∨
        ¬constraint.cascades parent.deleted then return state else
    let before ← parent.key constraint.parentColumns constraint.parentKinds false
    let values ← replacements constraint parent
    let results ← rows.mapM (propagateChild constraint parent.deleted before values)
    let changed := (List.range results.length).filter fun i => (results[i]?.map Prod.snd).getD false
    return (results.map Prod.fst, queue ++ changed)

/-- Processes one queue item: every constraint, in order. -/
def propagateStep (constraints : List Constraint) (rows : List Row) (position : ℕ) :
    Except WriteError (List Row × List ℕ) :=
  constraints.foldlM (propagateConstraint position) (rows, [])

/-- The worklist of a change to the row at `selected`; `none` when `fuel` steps do not end it. -/
def propagate (constraints : List Constraint) (fuel : ℕ) (rows : List Row) (selected : ℕ) :
    Except WriteError (Option (List Row)) :=
  Worklist.run (propagateStep constraints) fuel rows [selected]

/-- Checks one child of a parent whose change `constraint` does not propagate. -/
def guardChild (constraint : Constraint) (selected position : ℕ) (change : Change)
    (key : Option Key) (child : Row × ℕ) : Except WriteError Unit := do
  if child.1.table ≠ constraint.child ∨ child.1.deleted then return () else
  if position = selected ∧ child.2 = selected ∧ change.isReplace ∧
      ¬constraint.selfReferenceRequiresExistingParent then return () else
  let after ← child.1.key constraint.childColumns constraint.childKinds true
  refuseIf (equal key after) (match key with
    | none => .nullRelationshipConstraint constraint.parent constraint.child
    | some key => key.violation constraint.parent constraint.child)

/-- A parent whose key changes without being handed down has no child that keeps it. -/
def guardParent (rows : List Row) (constraint : Constraint) (selected : ℕ) (change : Change)
    (parent : Row × ℕ) : Except WriteError Unit := do
  if parent.1.table ≠ constraint.parent ∨ ¬parent.1.assigned constraint.parentColumns ∨
      constraint.cascades parent.1.deleted then return () else
  let key ← parent.1.key constraint.parentColumns constraint.parentKinds false
  forM rows.zipIdx (guardChild constraint selected parent.2 change key)

/-- The same for every constraint and every row. -/
def guards (rows : List Row) (constraints : List Constraint) (selected : ℕ) (change : Change) :
    Except WriteError Unit :=
  forM constraints fun constraint =>
    forM rows.zipIdx (guardParent rows constraint selected change)

/-- The keys a validation collects from the parent rows: those of the validated state, and those
before the change. -/
structure ParentKeys where
  parents : List Key
  previous : List Key

/-- The key a parent row held before the change, where the constraint asks for an existing one. -/
def previousKey (constraint : Constraint) (after : Bool) (row : Row) :
    Except WriteError (Option Key) :=
  if after ∧ constraint.selfReferenceRequiresExistingParent then
    row.key constraint.parentColumns constraint.parentKinds false
  else pure none

/-- Adds the keys a parent has after the change, and those it had before. -/
def collectParent (constraint : Constraint) (after : Bool) (keys : ParentKeys) (row : Row) :
    Except WriteError ParentKeys := do
  if row.table ≠ constraint.parent then return keys else
  let previous ← previousKey constraint after row
  let keys := { keys with previous := keys.previous ++ previous.toList }
  if after ∧ row.deleted then return keys else
  let key ← row.key constraint.parentColumns constraint.parentKinds after
  return { keys with parents := keys.parents ++ key.toList }

/-- A child has no key, or the key of a parent. -/
def validateChild (constraint : Constraint) (after : Bool) (keys : ParentKeys) (row : Row) :
    Except WriteError Unit := do
  if row.table ≠ constraint.child ∨ (after ∧ row.deleted) then return () else
  match ← row.key constraint.childColumns constraint.childKinds after with
  | none => return ()
  | some key =>
    refuseIf (¬Key.contains keys.parents key ∨
      (after ∧ constraint.selfReferenceRequiresExistingParent ∧ ¬Key.contains keys.previous key))
      (key.violation constraint.parent constraint.child)

/-- Checks one constraint: the parents are collected first, then every child is looked up. -/
def validateConstraint (rows : List Row) (after : Bool) (constraint : Constraint) :
    Except WriteError Unit := do
  let keys ← rows.foldlM (collectParent constraint after) { parents := [], previous := [] }
  let keys := { parents := Key.sort keys.parents, previous := Key.sort keys.previous }
  refuseIf (¬Key.unique keys.parents) (.mismatch "duplicate cascade parent key")
  forM rows (validateChild constraint after keys)

/-- Checks every constraint, before or after the change. -/
def validate (rows : List Row) (constraints : List Constraint) (after : Bool) :
    Except WriteError Unit :=
  forM constraints (validateConstraint rows after)

/-- The value a change requests for a column of its row. -/
def requested (change : Change) (column : ColumnOrdinal) : Except WriteError (Option RowValue) :=
  match change with
  | .replace _ values =>
    some <$> okOr values[column]? (.mismatch "replacement column count")
  | .field _ changed value => .ok (if changed = column then some value else none)
  | _ => .ok none

/-- A replacement that asks for the next AutoNumber keeps the stored one. -/
def generated (autoIncrement : ColumnOrdinal → Bool) (change : Change) (field : Field)
    (value : RowValue) : Except WriteError RowValue :=
  if value = .autoIncrement then
    if change.isReplace ∧ autoIncrement field.column then .ok field.before.value
    else .error (.unsupported "AutoIncrement requires an AutoNumber row replacement")
  else .ok value

/-- Assigns the request to one field of the selected row. -/
def assignRequest (autoIncrement : ColumnOrdinal → Bool) (change : Change) (field : Field) :
    Except WriteError Field := do
  match ← requested change field.column with
  | none => return field
  | some value =>
    let value ← generated autoIncrement change field value
    let after ← Value.copy value
    return { field with after := some after, isExplicit := true }

/-- The selected row with the request assigned. -/
def assignRow (autoIncrement : ColumnOrdinal → Bool) (change : Change) (row : Row) :
    Except WriteError Row := do
  let fields ← row.fields.mapM (assignRequest autoIncrement change)
  return { row with fields, deleted := match change with
    | .delete _ => true
    | _ => row.deleted }

/-- The request of a deletion assigns no field. -/
theorem assignRow_delete (autoIncrement : ColumnOrdinal → Bool) (locator : RowLocator)
    (row : Row) : assignRow autoIncrement (.delete locator) row =
      .ok { row with deleted := true } := by
  have hfields : row.fields.mapM (assignRequest autoIncrement (.delete locator)) =
      .ok row.fields := by
    have hmap := mapM_eq_ok_map (l := row.fields) (g := id)
      (f := assignRequest autoIncrement (.delete locator)) fun field _ => rfl
    simpa using hmap
  rw [assignRow, hfields]
  rfl

/-- A table whose rules cannot be evaluated refuses cascaded assignments to its rows. -/
def refusesRules (rules : PageNumber → Except WriteError Unit) (rows : List Row) (selected : ℕ)
    (constraint : Constraint) : Except WriteError Unit :=
  if rows.zipIdx.any fun (row, position) =>
      position ≠ selected && row.table == constraint.child && !row.deleted &&
        row.fields.any fun field => field.after.isSome
  then rules constraint.child
  else .ok ()

/-- The rows of a change with the request assigned, and the position of the selected one. -/
def select (autoIncrement : ColumnOrdinal → Bool) (target : PageNumber) (change : Change)
    (rows : List Row) : Except WriteError (List Row × ℕ) := do
  let selected ← okOr
    (rows.findIdx? fun row => row.table = target ∧ change.locator = some row.locator)
    (.notFound "cascade target row")
  let row ← okOr rows[selected]? (.notFound "cascade target row")
  let row ← assignRow autoIncrement change row
  return (rows.set selected row, selected)

/-- `prepare` on the loaded rows of the component: the rows with their values after the change, or
`none` when `fuel` steps do not end the worklist. -/
def prepare (rules : PageNumber → Except WriteError Unit) (autoIncrement : ColumnOrdinal → Bool)
    (target : PageNumber) (constraints : List Constraint) (fuel : ℕ) (rows : List Row)
    (change : Change) : Except WriteError (Option (List Row)) := do
  validate rows constraints false
  let (rows, selected) ← select autoIncrement target change rows
  match ← propagate constraints fuel rows selected with
  | none => return none
  | some rows =>
    forM constraints (refusesRules rules rows selected)
    guards rows constraints selected change
    validate rows constraints true
    return some rows

end Cascade

end Jet3
