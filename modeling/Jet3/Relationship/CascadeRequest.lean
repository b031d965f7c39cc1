import Jet3.Relationship.Cascade
import Jet3.Relationship.CascadeLoad

/-!
# The requested row

`select` assigns the request to one loaded row. Its key after the change is the key the restricting
path computes for the stored row, and no other row changes.
-/

namespace Jet3

open Outcome

/-- The change requests a value for this column of its row. -/
def Change.assignsColumn (change : Change) (column : ColumnOrdinal) : Bool :=
  match change with
  | .replace _ _ => true
  | .field _ changed _ => changed = column
  | _ => false

namespace Cascade

section Request

variable {autoIncrement : ColumnOrdinal → Bool} {change : Change} {stored : StoredRow}
  {field field' : Field}

/-- The value the restricting path sees in a column of the selected row. -/
def Expected (autoIncrement : ColumnOrdinal → Bool) (change : Change) (stored : StoredRow)
    (column : ColumnOrdinal) (before value : RowValue) : Prop :=
  (change.lowered autoIncrement stored).existingValue stored.locator column before = .ok value

/-- A replacement is expected to change what it names. -/
theorem expected_replace_iff {row : RowLocator} {values : List RowValue} {before value : RowValue}
    {column : ColumnOrdinal} (hlocator : row = stored.locator)
    (hbefore : stored.values[column]? = some before) :
    Expected autoIncrement (.replace row values) stored column before value ↔
      ∃ requested, values[column]? = some requested ∧
        value = if requested = .autoIncrement ∧ autoIncrement column then before
          else requested := by
  subst hlocator
  simp only [Expected, Change.lowered, Change.existingValue, Change.columnValue, if_true,
    okOr_ok_iff, List.getElem?_mapIdx, Option.map_eq_some_iff, hbefore, Option.getD_some]
  exact exists_congr fun requested => and_congr_right fun _ => eq_comm

/-- A column is read from the values of the row. -/
theorem readColumn_eq {column : ColumnOrdinal} {value : RowValue}
    (h : stored.readColumn column = .ok value) : stored.values[column]? = some value := by
  simp only [StoredRow.readColumn, bind_ok_iff, okOr_ok_iff, exists_unit, pure_ok_iff] at h
  obtain ⟨found, hfound, -, rfl⟩ := h
  exact hfound

/-- A request leaves a field alone, or gives it a value. -/
theorem assignRequest_ok_iff :
    assignRequest autoIncrement change field = .ok field' ↔
      (requested change field.column = .ok none ∧ field' = field) ∨
      ∃ value after, requested change field.column = .ok (some value) ∧
        generated autoIncrement change field value = .ok after.value ∧
        field' = { field with after := some after, isExplicit := true } := by
  unfold assignRequest
  rw [eq_comm (a := field')]
  rcases requested change field.column with e | _ | value
  · simp
  · simp
  · simp only [bind_ok_iff, Except.ok.injEq, exists_eq_left', pure_ok_iff, Value.copy_ok_iff,
      Option.some.injEq, reduceCtorEq, false_and, false_or]
    constructor
    · rintro ⟨_, hgenerated, after, rfl, rfl⟩
      exact ⟨value, after, rfl, hgenerated, rfl⟩
    · rintro ⟨_, after, rfl, hgenerated, rfl⟩
      exact ⟨_, hgenerated, after, rfl, rfl⟩

/-- An assigned field takes the value the restricting path expects. -/
theorem assignRequest_ok (hbefore : stored.readColumn field.column = .ok field.before.value)
    (hafter : field.after = none) (hlocator : change.locator = some stored.locator)
    (h : assignRequest autoIncrement change field = .ok field') :
    field'.column = field.column ∧ field'.before = field.before ∧
      field'.after.isSome = change.assignsColumn field.column ∧
      Expected autoIncrement change stored field.column field.before.value
        field'.current.value := by
  rcases assignRequest_ok_iff.mp h with ⟨hnone, rfl⟩ | ⟨value, after, hsome, hgenerated, rfl⟩
  · -- a column the change says nothing about keeps its value
    refine ⟨rfl, rfl, ?_, ?_⟩
    · rw [hafter]
      cases change <;> simp [requested, Change.assignsColumn] at hnone ⊢
      exact hnone
    · rw [Field.current, hafter, Option.getD_none]
      cases change <;> simp [requested, Expected, Change.lowered, Change.existingValue] at hnone ⊢
      exact fun _ heq => absurd heq hnone
  · refine ⟨rfl, rfl, ?_, ?_⟩
    · -- one it does has the requested value, or the next number
      cases change <;> simp [requested, Change.assignsColumn] at hsome ⊢
      exact hsome.1
    · simp only [Field.current, Option.getD_some]
      cases change with
      | insert values => simp [requested] at hsome
      | delete row => simp [requested] at hsome
      | replace row values =>
        rw [expected_replace_iff (Option.some.inj hlocator) (readColumn_eq hbefore)]
        simp only [requested, map_ok_iff, okOr_ok_iff, Option.some.injEq, exists_eq_right] at hsome
        refine ⟨value, hsome, ?_⟩
        unfold generated at hgenerated
        simp only [Change.isReplace, true_and] at hgenerated
        by_cases hauto : value = .autoIncrement
        · rw [if_pos hauto] at hgenerated
          by_cases hcolumn : autoIncrement field.column = true
          · rw [if_pos hcolumn, Except.ok.injEq] at hgenerated
            rw [if_pos ⟨hauto, hcolumn⟩, hgenerated]
          · rw [if_neg hcolumn] at hgenerated
            cases hgenerated
        · rw [if_neg hauto, Except.ok.injEq] at hgenerated
          rw [if_neg fun h => hauto h.1, hgenerated]
      | field row column value' =>
        simp only [requested, Except.ok.injEq, Option.ite_none_right_eq_some,
          Option.some.injEq] at hsome
        obtain ⟨hcolumn, rfl⟩ := hsome
        unfold generated at hgenerated
        by_cases hauto : value' = .autoIncrement
        · simp [hauto, Change.isReplace] at hgenerated
        · rw [if_neg hauto, Except.ok.injEq] at hgenerated
          simp only [Expected, Change.lowered, Change.existingValue, Option.some.inj hlocator,
            hcolumn, and_self, if_true, hgenerated]

/-- A field is assigned when the restricting path finds a scalar value. -/
theorem exists_assignRequest (hbefore : stored.readColumn field.column = .ok field.before.value)
    (hlocator : change.locator = some stored.locator) {value : RowValue}
    (hvalue : Expected autoIncrement change stored field.column field.before.value value)
    (hscalar : value.isScalar = true) :
    ∃ field', assignRequest autoIncrement change field = .ok field' := by
  -- a value that can be encoded is no request for a number
  have hnotAuto : value ≠ .autoIncrement := by
    rintro rfl
    simp [RowValue.isScalar] at hscalar
  cases change with
  | insert values => exact ⟨field, assignRequest_ok_iff.mpr (.inl ⟨rfl, rfl⟩)⟩
  | delete row => exact ⟨field, assignRequest_ok_iff.mpr (.inl ⟨rfl, rfl⟩)⟩
  | replace row values =>
    rw [expected_replace_iff (Option.some.inj hlocator) (readColumn_eq hbefore)] at hvalue
    obtain ⟨requested, hrequested, rfl⟩ := hvalue
    refine ⟨_, assignRequest_ok_iff.mpr (.inr ⟨requested, ⟨_, hscalar⟩, ?_, ?_, rfl⟩)⟩
    · simp [Cascade.requested, hrequested]
    · unfold generated
      by_cases hauto : requested = .autoIncrement
      · by_cases hcolumn : autoIncrement field.column = true
        · simp [hauto, hcolumn, Change.isReplace]
        · rw [if_neg fun h => hcolumn h.2] at hnotAuto
          exact absurd hauto hnotAuto
      · simp [hauto]
  | field row column value' =>
    by_cases hcolumn : column = field.column
    · simp only [Expected, Change.lowered, Change.existingValue, Option.some.inj hlocator, hcolumn,
        and_self, if_true, Except.ok.injEq] at hvalue
      subst hvalue
      refine ⟨_, assignRequest_ok_iff.mpr (.inr ⟨value', ⟨value', hscalar⟩, ?_, ?_, rfl⟩)⟩
      · simp [requested, hcolumn]
      · rw [generated, if_neg hnotAuto]
    · exact ⟨field, assignRequest_ok_iff.mpr (.inl ⟨by simp [requested, hcolumn], rfl⟩)⟩

end Request

/-! ## Keys of loaded rows -/

/-- The values of key columns whose fields are known. -/
theorem values_eq {row : Row} {side : List ColumnOrdinal} {value : ColumnOrdinal → RowValue}
    {after : Bool} (hle : side.length ≤ maxFields)
    (h : ∀ column ∈ side, ∃ field, row.field column = some field ∧
      (if after then field.current else field.before).value = value column) :
    row.values side after = .ok (side.map value) := by
  simp only [Row.values, bind_ok_iff, exists_unit, refuseIf_ok_iff]
  refine ⟨by omega, mapM_eq_ok_map fun column hmem => ?_⟩
  obtain ⟨field, hfield, hvalue⟩ := h column hmem
  simp only [bind_ok_iff, okOr_ok_iff, pure_ok_iff]
  exact ⟨field, hfield, hvalue⟩

/-- The values of a side of a stored row. -/
theorem keyValues_eq {stored : StoredRow} {side : List ColumnOrdinal}
    {value : ColumnOrdinal → RowValue} (hle : side.length ≤ maxFields)
    (h : ∀ column ∈ side, stored.readColumn column = .ok (value column)) :
    stored.keyValues side = .ok (side.map value) := by
  simp only [StoredRow.keyValues, bind_ok_iff, exists_unit, refuseIf_ok_iff]
  exact ⟨by omega, mapM_eq_ok_map h⟩

/-- The values of a side after the change. -/
theorem existingValues_eq {change : Change} {locator : RowLocator} {side : List ColumnOrdinal}
    {before after : ColumnOrdinal → RowValue}
    (h : ∀ column ∈ side, change.existingValue locator column (before column) =
      .ok (after column)) :
    (side.zip (side.map before)).mapM
      (fun (column, before) => change.existingValue locator column before) =
      .ok (side.map after) := by
  induction side with
  | nil => rfl
  | cons column side ih =>
    have hrest := ih fun c hc => h c (List.mem_cons_of_mem column hc)
    simp only [List.map_cons, List.zip_cons_cons, List.mapM_cons, h column List.mem_cons_self,
      hrest]
    rfl

/-- The restricting path and the cascading path see the same keys of a row. -/
structure Agrees (side : List ColumnOrdinal) (kinds : List ScalarKeyType)
    (change : Option Change) (stored : StoredRow) (row : Row) : Prop where
  before : row.key side kinds false = (stored.keyValues side >>= Key.encode kinds)
  keys : ∀ before after, Mutation.rowKeys side kinds change stored = .ok (before, after) ↔
    row.key side kinds false = .ok before ∧
      (row.deleted = true ∧ after = none ∨
        row.deleted = false ∧ ∃ key, after = some key ∧ row.key side kinds true = .ok key)
  assigned : Mutation.isAssigned side change stored = row.assigned side

/-- A row whose columns are read alike by both paths. -/
theorem agrees_of_values {side : List ColumnOrdinal} {kinds : List ScalarKeyType}
    {change : Option Change} {stored : StoredRow} {row : Row}
    {before : ColumnOrdinal → RowValue} (after : ColumnOrdinal → RowValue)
    (hle : side.length ≤ maxFields)
    (hstored : ∀ column ∈ side, stored.readColumn column = .ok (before column))
    (hfields : ∀ column ∈ side, ∃ field, row.field column = some field ∧
      field.before.value = before column ∧ field.current.value = after column)
    (hafter : Mutation.afterKey change stored.locator side (side.map before) kinds =
      if row.deleted then .ok none else some <$> Key.encode kinds (side.map after))
    (hassigned : Mutation.isAssigned side change stored = row.assigned side) :
    Agrees side kinds change stored row := by
  -- both keys are those of the values of the columns
  have hbeforeKey : row.key side kinds false = Key.encode kinds (side.map before) := by
    rw [Row.key, values_eq hle fun column hmem => ?_]
    · rfl
    · obtain ⟨field, hfield, hvalue, -⟩ := hfields column hmem
      exact ⟨field, hfield, hvalue⟩
  have hafterKey : row.key side kinds true = Key.encode kinds (side.map after) := by
    rw [Row.key, values_eq hle fun column hmem => ?_]
    · rfl
    · obtain ⟨field, hfield, -, hvalue⟩ := hfields column hmem
      exact ⟨field, hfield, hvalue⟩
  refine ⟨by rw [hbeforeKey, keyValues_eq hle hstored]; rfl, fun b a => ?_, hassigned⟩
  simp only [Mutation.rowKeys, bind_ok_iff, keyValues_eq hle hstored, Except.ok.injEq,
    exists_eq_left', hafter, pure_ok_iff, Prod.mk.injEq, hbeforeKey, hafterKey]
  cases row.deleted
  · simp only [Bool.false_eq_true, if_false, map_ok_iff, false_and, true_and, false_or]
    constructor
    · rintro ⟨b, hb, a, ⟨key, hkey, rfl⟩, rfl, rfl⟩
      exact ⟨hb, key, rfl, hkey⟩
    · rintro ⟨hb, key, rfl, hkey⟩
      exact ⟨b, hb, _, ⟨key, hkey, rfl⟩, rfl, rfl⟩
  · simp only [if_true, Except.ok.injEq, true_and, reduceCtorEq, false_and, or_false]
    constructor
    · rintro ⟨b, hb, a, rfl, rfl, rfl⟩
      exact ⟨hb, rfl⟩
    · rintro ⟨hb, rfl⟩
      exact ⟨b, hb, _, rfl, rfl, rfl⟩

/-- The fields a snapshot has for the columns of a side. -/
theorem IsSnapshot.exists_before {table : PageNumber} {columns : List ColumnOrdinal}
    {stored : StoredRow} {row : Row} (h : IsSnapshot table columns stored row) :
    ∃ before : ColumnOrdinal → RowValue, ∀ column ∈ columns,
      stored.readColumn column = .ok (before column) ∧
        ∃ field ∈ row.fields, row.field column = some field ∧
          field.before.value = before column := by
  have hcolumn : ∀ column, ∃ value, column ∈ columns → stored.readColumn column = .ok value ∧
      ∃ field ∈ row.fields, row.field column = some field ∧ field.before.value = value := by
    intro column
    by_cases hmem : column ∈ columns
    · obtain ⟨field, hfield, hfound⟩ := exists_field h.columns_eq hmem
      have hbefore := h.before_eq field hfield
      rw [field_column hfound] at hbefore
      exact ⟨_, fun _ => ⟨hbefore, field, hfield, hfound, rfl⟩⟩
    · exact ⟨.null, fun hin => absurd hin hmem⟩
  choose before hbefore using hcolumn
  exact ⟨before, hbefore⟩

/-- The two paths agree on a row the change does not select. -/
theorem agrees_other {table : PageNumber} {columns side : List ColumnOrdinal}
    {kinds : List ScalarKeyType} {change : Option Change} {stored : StoredRow} {row : Row}
    (h : IsSnapshot table columns stored row) (hsub : side ⊆ columns)
    (hle : side.length ≤ maxFields)
    (hother : ∀ c, change = some c → c.locator ≠ some stored.locator) :
    Agrees side kinds change stored row := by
  obtain ⟨before, hbefore⟩ := h.exists_before
  refine agrees_of_values before hle (fun column hmem => (hbefore column (hsub hmem)).1)
    (fun column hmem => ?_) ?_ ?_
  · obtain ⟨-, field, hfield, hfound, hvalue⟩ := hbefore column (hsub hmem)
    exact ⟨field, hfound, hvalue, by
      rw [Field.current, (h.fresh field hfield).1, Option.getD_none, hvalue]⟩
  · -- the change is of another row, so nothing of this one is lowered
    rw [h.kept]
    rcases change with _ | change
    · rfl
    · have hlocator := hother change rfl
      have hdelete : change ≠ .delete stored.locator := by
        rintro rfl
        exact hlocator rfl
      have hvalues : ∀ column ∈ side, change.existingValue stored.locator column (before column) =
          .ok (before column) := by
        intro column _
        cases change <;> simp [Change.existingValue, Change.locator] at hlocator ⊢ <;>
          simp [hlocator]
      simp only [Mutation.afterKey, Change.existing, if_neg hdelete, existingValues_eq hvalues]
      rfl
  · have hassigned : row.assigned side = false := by
      have hrow := assigned_of_fresh (fun field hfield => (h.fresh field hfield).1) side row.deleted
      rw [← h.kept]
      exact hrow
    rw [hassigned]
    rcases change with _ | change
    · rfl
    · have hlocator := hother change rfl
      cases change <;> simp [Mutation.isAssigned, Change.assigns, Change.locator] at hlocator ⊢ <;>
        simp [hlocator]

/-- What the request does to the fields of the selected row. -/
theorem assignRow_ok {autoIncrement : ColumnOrdinal → Bool} {change : Change} {row row' : Row}
    (h : assignRow autoIncrement change row = .ok row') :
    row'.table = row.table ∧ row'.locator = row.locator ∧
      row'.deleted = (change.isDelete || row.deleted) ∧
      ∃ assign : Field → Field, row'.fields = row.fields.map assign ∧
        ∀ field ∈ row.fields, assignRequest autoIncrement change field = .ok (assign field) := by
  simp only [assignRow, bind_ok_iff, pure_ok_iff] at h
  obtain ⟨fields, hfields, rfl⟩ := h
  have : Nonempty Field :=
    ⟨{ column := 0, before := ⟨.null, rfl⟩, after := none, isExplicit := false }⟩
  obtain ⟨g, rfl, hg⟩ := exists_eq_map_of_mapM_ok hfields
  refine ⟨rfl, rfl, ?_, g, rfl, hg⟩
  cases change <;> simp [Change.isDelete]

/-- Assigning the request keeps the columns. -/
theorem field_map {row row' : Row} {assign : Field → Field} {column : ColumnOrdinal}
    (hfields : row'.fields = row.fields.map assign)
    (hcolumn : ∀ field ∈ row.fields, (assign field).column = field.column) :
    row'.field column = (row.field column).map assign := by
  unfold Row.field
  rw [hfields]
  generalize row.fields = fields at hcolumn
  induction fields with
  | nil => rfl
  | cons field fields ih =>
    rw [List.forall_mem_cons] at hcolumn
    rw [List.map_cons, List.find?_cons, List.find?_cons, hcolumn.1, ih hcolumn.2]
    split <;> rfl

/-- Which columns of a side the request assigns. -/
theorem any_assignsColumn {row : Row} {columns side : List ColumnOrdinal} {change : Change}
    (hcolumns : row.fields.map Field.column = columns) (hsub : side ⊆ columns) :
    (row.fields.any fun field => change.assignsColumn field.column && side.contains field.column) =
      side.any change.assignsColumn := by
  rw [Bool.eq_iff_iff, List.any_eq_true, List.any_eq_true]
  simp only [Bool.and_eq_true, List.contains_iff_mem]
  constructor
  · rintro ⟨field, -, hassigns, hmem⟩
    exact ⟨field.column, hmem, hassigns⟩
  · rintro ⟨column, hmem, hassigns⟩
    obtain ⟨field, hfield, hfound⟩ := exists_field hcolumns (hsub hmem)
    rw [← field_column hfound] at hmem hassigns
    exact ⟨field, hfield, hassigns, hmem⟩

/-- The request and its lowered form assign the same columns. -/
theorem assigns_lowered {autoIncrement : ColumnOrdinal → Bool} {change : Change}
    {stored : StoredRow} {side : List ColumnOrdinal} (hne : side ≠ [])
    (hlocator : change.locator = some stored.locator) :
    (change.lowered autoIncrement stored).assigns stored.locator side =
      (change.isDelete || side.any change.assignsColumn) := by
  obtain ⟨column, hcolumn⟩ := List.exists_mem_of_ne_nil side hne
  cases change with
  | insert values => simp [Change.locator] at hlocator
  | delete row => simpa [Change.lowered, Change.assigns, Change.isDelete, Change.locator]
    using hlocator
  | replace row values =>
    simp only [Change.locator, Option.some.injEq] at hlocator
    have hexists : ∃ column, column ∈ side := ⟨column, hcolumn⟩
    simpa [Change.lowered, Change.assigns, Change.isDelete, Change.assignsColumn, hlocator]
      using hexists
  | field row changed value =>
    simp only [Change.locator, Option.some.injEq] at hlocator
    simp only [Change.lowered, Change.assigns, Change.isDelete, hlocator, true_and, Bool.false_or]
    rw [Bool.eq_iff_iff]
    simp [Change.assignsColumn]

/-- A change of the assigned values leaves the keys before the change alone. -/
theorem key_before_map {row row' : Row} {assign : Field → Field}
    (hfields : row'.fields = row.fields.map assign)
    (hassign : ∀ field ∈ row.fields, (assign field).column = field.column ∧
      (assign field).before = field.before)
    (columns : List ColumnOrdinal) (kinds : List ScalarKeyType) :
    row'.key columns kinds false = row.key columns kinds false := by
  have hread : (fun column => do
      let field ← okOr (row'.field column) (WriteError.mismatch "cascade key column absent")
      return (if false = true then field.current else field.before).value) = fun column => do
      let field ← okOr (row.field column) (WriteError.mismatch "cascade key column absent")
      return (if false = true then field.current else field.before).value := by
    funext column
    rw [field_map hfields fun field hfield => (hassign field hfield).1]
    rcases hfield : row.field column with _ | field
    · rfl
    · have hbefore := (hassign field (List.mem_of_find?_eq_some hfield)).2
      simp [okOr, hbefore]
  unfold Row.key Row.values
  rw [hread]

/-- Only deletions are lowered to deletions. -/
theorem lowered_eq_delete_iff {autoIncrement : ColumnOrdinal → Bool} {change : Change}
    {stored : StoredRow} {row : RowLocator} :
    change.lowered autoIncrement stored = .delete row ↔ change = .delete row := by
  cases change <;> simp [Change.lowered]

/-- The two paths agree on the row the change selects. -/
theorem agrees_selected {table : PageNumber} {columns side : List ColumnOrdinal}
    {kinds : List ScalarKeyType} {autoIncrement : ColumnOrdinal → Bool} {change : Change}
    {stored : StoredRow} {row row' : Row} (h : IsSnapshot table columns stored row)
    (hsub : side ⊆ columns) (hle : side.length ≤ maxFields) (hne : side ≠ [])
    (hlocator : change.locator = some stored.locator)
    (hassign : assignRow autoIncrement change row = .ok row') :
    Agrees side kinds (some (change.lowered autoIncrement stored)) stored row' := by
  obtain ⟨before, hbefore⟩ := h.exists_before
  obtain ⟨-, -, hdeleted, assign, hfields, hrequest⟩ := assignRow_ok hassign
  rw [h.kept, Bool.or_false] at hdeleted
  have hspec := fun field hfield => assignRequest_ok (h.before_eq field hfield)
    (h.fresh field hfield).1 hlocator (hrequest field hfield)
  have hfield : ∀ column, row'.field column = (row.field column).map assign := fun column =>
    field_map hfields fun field hfield => (hspec field hfield).1
  -- what the columns hold after the change
  let after : ColumnOrdinal → RowValue := fun column =>
    ((row'.field column).map fun field => field.current.value).getD .null
  have hafter : ∀ column ∈ side, ∃ field, row'.field column = some field ∧
      field.before.value = before column ∧ field.current.value = after column ∧
      Expected autoIncrement change stored column (before column) (after column) := by
    intro column hmem
    obtain ⟨-, field, hin, hfound, hvalue⟩ := hbefore column (hsub hmem)
    obtain ⟨-, hsame, -, hexpected⟩ := hspec field hin
    have hfound' : row'.field column = some (assign field) := by
      rw [hfield, hfound, Option.map_some]
    have hvalue' : after column = (assign field).current.value := by
      simp only [after, hfound', Option.map_some, Option.getD_some]
    rw [field_column hfound, hvalue, ← hvalue'] at hexpected
    exact ⟨_, hfound', hsame ▸ hvalue, hvalue'.symm, hexpected⟩
  refine agrees_of_values after hle
    (fun column hmem => (hbefore column (hsub hmem)).1)
    (fun column hmem => ?_) ?_ ?_
  · obtain ⟨field, hfound, hvalue, hvalue', -⟩ := hafter column hmem
    exact ⟨field, hfound, hvalue, hvalue'⟩
  · simp only [Mutation.afterKey, Change.existing, lowered_eq_delete_iff]
    by_cases hdelete : change = .delete stored.locator
    · rw [if_pos hdelete, hdeleted, hdelete]
      rfl
    · have hkept : change.isDelete = false := by
        cases change <;> simp_all [Change.isDelete, Change.locator]
      rw [if_neg hdelete, hdeleted, hkept, existingValues_eq fun column hmem => ?_]
      · rfl
      · obtain ⟨-, -, -, -, hexpected⟩ := hafter column hmem
        exact hexpected
  · have hany : (row.fields.any ((fun field => field.after.isSome && side.contains field.column) ∘
        assign)) = row.fields.any fun field =>
          change.assignsColumn field.column && side.contains field.column := by
      rw [Bool.eq_iff_iff, List.any_eq_true, List.any_eq_true]
      refine exists_congr fun field => and_congr_right fun hin => ?_
      rw [Function.comp_apply, (hspec field hin).1, (hspec field hin).2.2.1]
    rw [Row.assigned, hdeleted, hfields, List.any_map, hany, any_assignsColumn h.columns_eq hsub]
    exact assigns_lowered hne hlocator

/-! ## The position of the selected row -/

section Select

variable {α κ : Type} {key : α → κ} {p : α → Bool} {l : List α} {i : ℕ}

/-- In a list without repeated keys the item found is the only one of its key. -/
theorem position_iff (hnodup : (l.map key).Nodup)
    (hkey : ∀ a ∈ l, ∀ b ∈ l, p a = true → p b = true → key a = key b)
    (h : l.findIdx? p = some i) {j : ℕ} {a : α} (hj : l[j]? = some a) :
    p a = true ↔ j = i := by
  obtain ⟨hlt, hp, -⟩ := List.findIdx?_eq_some_iff_getElem.mp h
  have hi : l[i]? = some l[i] := List.getElem?_eq_getElem hlt
  constructor
  · intro ha
    have heq := hkey a (List.mem_of_getElem? hj) l[i] (List.mem_of_getElem? hi) ha hp
    have hmap : (l.map key)[j]? = (l.map key)[i]? := by
      rw [List.getElem?_map, List.getElem?_map, hj, hi, Option.map_some, Option.map_some, heq]
    have hjlt : j < (l.map key).length := by
      rw [List.length_map]
      exact (List.getElem?_eq_some_iff.mp hj).1
    exact (List.getElem?_inj hjlt hnodup).mp hmap
  · rintro rfl
    rw [hi, Option.some.injEq] at hj
    exact hj ▸ hp

/-- Replacing it is replacing every item of that key. -/
theorem set_eq_map (hnodup : (l.map key).Nodup)
    (hkey : ∀ a ∈ l, ∀ b ∈ l, p a = true → p b = true → key a = key b)
    (h : l.findIdx? p = some i) (b : α) :
    l.set i b = l.map fun a => if p a then b else a := by
  refine List.ext_getElem? fun j => ?_
  rw [List.getElem?_set, List.getElem?_map]
  rcases hj : l[j]? with _ | a
  · have hge := List.getElem?_eq_none_iff.mp hj
    have hlt := (List.findIdx?_eq_some_iff_getElem.mp h).1
    rw [if_neg (by omega)]
    rfl
  · have hpos := position_iff hnodup hkey h hj
    by_cases hij : i = j
    · subst hij
      rw [if_pos rfl, if_pos (List.getElem?_eq_some_iff.mp hj).1, Option.map_some,
        if_pos (hpos.mpr rfl)]
    · rw [if_neg hij, Option.map_some, if_neg fun hp => hij (hpos.mp hp).symm]

end Select

/-- `select` looks for this row. -/
def isSelected (target : PageNumber) (change : Change) (row : Row) : Bool :=
  row.table = target ∧ change.locator = some row.locator

/-- A row is identified by its table and its locator. -/
def Row.identity (row : Row) : PageNumber × RowLocator :=
  (row.table, row.locator)

/-- A change selects one row. -/
theorem identity_eq_of_isSelected {target : PageNumber} {change : Change} {row other : Row}
    (h : isSelected target change row = true) (hother : isSelected target change other = true) :
    row.identity = other.identity := by
  simp only [isSelected, decide_eq_true_eq] at h hother
  rw [Row.identity, Row.identity, h.1, hother.1, Option.some.inj (h.2.symm.trans hother.2)]

/-- Where rows have different identities, the selection replaces the one selected row. -/
theorem select_eq_map {autoIncrement : ColumnOrdinal → Bool} {target : PageNumber}
    {change : Change} {rows start : List Row} {selected : ℕ}
    (hids : (rows.map Row.identity).Nodup)
    (h : select autoIncrement target change rows = .ok (start, selected)) :
    ∃ row ∈ rows, isSelected target change row = true ∧ ∃ row',
      assignRow autoIncrement change row = .ok row' ∧
        start = rows.map fun r => if isSelected target change r then row' else r := by
  simp only [select, bind_ok_iff, okOr_ok_iff, pure_ok_iff] at h
  obtain ⟨i, hi, row, hrow, row', hassign, heq⟩ := h
  have hkey : ∀ a ∈ rows, ∀ b ∈ rows, isSelected target change a = true →
      isSelected target change b = true → a.identity = b.identity :=
    fun a _ b _ => identity_eq_of_isSelected
  refine ⟨row, List.mem_of_getElem? hrow, (position_iff hids hkey hi hrow).mpr rfl, row', hassign,
    ?_⟩
  rw [← set_eq_map hids hkey hi row']
  exact (Prod.mk.inj heq).1.symm

/-- The selection does not depend on the order of the rows. -/
theorem select_perm {autoIncrement : ColumnOrdinal → Bool} {target : PageNumber}
    {change : Change} {rows rows' start start' : List Row} {selected selected' : ℕ}
    (hids : (rows.map Row.identity).Nodup) (hperm : rows.Perm rows')
    (h : select autoIncrement target change rows = .ok (start, selected))
    (h' : select autoIncrement target change rows' = .ok (start', selected')) :
    start.Perm start' := by
  obtain ⟨row, hmem, hselected, changed, hassign, rfl⟩ := select_eq_map hids h
  obtain ⟨row', hmem', hselected', changed', hassign', rfl⟩ :=
    select_eq_map ((hperm.map Row.identity).nodup_iff.mp hids) h'
  obtain rfl : row = row' := List.inj_on_of_nodup_map hids hmem (hperm.mem_iff.mpr hmem')
    (identity_eq_of_isSelected hselected hselected')
  obtain rfl : changed = changed' := Except.ok.inj (hassign.symm.trans hassign')
  exact hperm.map _

/-- Only the selected row carries a request. -/
theorem select_requested {autoIncrement : ColumnOrdinal → Bool} {target : PageNumber}
    {change : Change} {rows start : List Row} {selected : ℕ} (hfresh : Fresh rows)
    (h : select autoIncrement target change rows = .ok (start, selected)) :
    ∀ row ∈ start, ∀ field ∈ row.fields, field.after ≠ none → start[selected]? = some row := by
  simp only [select, bind_ok_iff, okOr_ok_iff, pure_ok_iff] at h
  obtain ⟨i, -, row, hrow, row', -, heq⟩ := h
  cases heq
  intro r hr field hfield hafter
  rcases List.mem_or_eq_of_mem_set hr with hr | rfl
  · exact absurd ((hfresh r hr).2 field hfield).1 hafter
  · exact List.getElem?_set_self (List.getElem?_eq_some_iff.mp hrow).1

end Cascade

end Jet3
