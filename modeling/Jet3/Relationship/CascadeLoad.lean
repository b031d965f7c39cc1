import Jet3.Relationship.CascadeRows

/-!
# Loaded rows

`load` turns each stored row of the component's tables into one snapshot, table by table. A
snapshot holds the stored value of every key column, so its keys before the change are the keys of
the stored row.
-/

namespace Jet3

open Outcome

namespace Cascade

/-! ## The tables of a component -/

/-- Tables are added once. -/
theorem mem_foldl_addTable {named roots : List PageNumber} {table : PageNumber} :
    table ∈ named.foldl addTable roots ↔ table ∈ roots ∨ table ∈ named := by
  induction named generalizing roots with
  | nil => simp
  | cons first named ih =>
    rw [List.foldl_cons, ih, List.mem_cons]
    unfold addTable
    split
    · rename_i hmem
      constructor
      · tauto
      · rintro (h | rfl | h)
        · exact .inl h
        · exact .inl hmem
        · exact .inr h
    · rw [List.mem_append, List.mem_singleton, or_assoc]

theorem nodup_foldl_addTable {named roots : List PageNumber} (h : roots.Nodup) :
    (named.foldl addTable roots).Nodup := by
  induction named generalizing roots with
  | nil => exact h
  | cons first named ih =>
    rw [List.foldl_cons]
    refine ih ?_
    unfold addTable
    split
    · exact h
    · rename_i hnot
      exact List.nodup_append.mpr ⟨h, List.nodup_singleton first, by
        rintro a ha b hb rfl
        rw [List.mem_singleton] at hb
        exact hnot (hb ▸ ha)⟩

/-- The tables of a component are listed once. -/
theorem nodup_tables (constraints : List Constraint) : (tables constraints).Nodup :=
  nodup_foldl_addTable List.nodup_nil

/-- The tables of a component are the ends of its constraints. -/
theorem mem_tables {constraints : List Constraint} {table : PageNumber} :
    table ∈ tables constraints ↔
      ∃ constraint ∈ constraints, table = constraint.parent ∨ table = constraint.child := by
  unfold tables
  rw [mem_foldl_addTable]
  simp

/-- The sides of a constraint are the pairs of a table and its key columns. -/
def IsSide (constraint : Constraint) (table : PageNumber) (columns : List ColumnOrdinal) : Prop :=
  (table = constraint.parent ∧ columns = constraint.parentColumns) ∨
    (table = constraint.child ∧ columns = constraint.childColumns)

/-- Both sides of a constraint have as many columns. -/
theorem IsSide.length {constraint : Constraint} {table : PageNumber}
    {columns : List ColumnOrdinal} (h : IsSide constraint table columns) :
    columns.length = constraint.parentColumns.length := by
  rcases h with ⟨-, rfl⟩ | ⟨-, rfl⟩
  · rfl
  · exact constraint.childColumns_length

/-- No side has more columns than a key. -/
theorem IsSide.length_le {constraint : Constraint} {table : PageNumber}
    {columns : List ColumnOrdinal} (h : IsSide constraint table columns) :
    columns.length ≤ maxFields :=
  h.length ▸ constraint.fields_le

/-- Every side has a column. -/
theorem IsSide.ne_nil {constraint : Constraint} {table : PageNumber}
    {columns : List ColumnOrdinal} (h : IsSide constraint table columns) : columns ≠ [] := by
  rintro rfl
  have hlength := h.length
  have hpos := constraint.fields_pos
  simp only [List.length_nil] at hlength
  omega

/-- The loaded columns of a table are those of its sides. -/
theorem mem_keyColumns {constraints : List Constraint} {table : PageNumber}
    {columns : List ColumnOrdinal} {column : ColumnOrdinal}
    (h : keyColumns constraints table = .ok columns) :
    column ∈ columns ↔ ∃ constraint ∈ constraints, ∃ side, IsSide constraint table side ∧
      column ∈ side := by
  simp only [keyColumns, bind_ok_iff, exists_unit, refuseIf_ok_iff, pure_ok_iff] at h
  obtain ⟨hrange, rfl⟩ := h
  simp only [List.mem_filter, List.mem_range, List.any_eq_true, usesColumn, Bool.or_eq_true,
    Bool.and_eq_true, decide_eq_true_eq, List.contains_iff_mem]
  constructor
  · rintro ⟨-, constraint, hconstraint, ⟨htable, hmem⟩ | ⟨htable, hmem⟩⟩
    · exact ⟨constraint, hconstraint, _, .inl ⟨htable.symm, rfl⟩, hmem⟩
    · exact ⟨constraint, hconstraint, _, .inr ⟨htable.symm, rfl⟩, hmem⟩
  · rintro ⟨constraint, hconstraint, side, ⟨rfl, rfl⟩ | ⟨rfl, rfl⟩, hmem⟩
    · refine ⟨?_, constraint, hconstraint, .inl ⟨rfl, hmem⟩⟩
      by_contra hge
      exact hrange ⟨constraint, hconstraint, .inl ⟨rfl, column, hmem, not_lt.mp hge⟩⟩
    · refine ⟨?_, constraint, hconstraint, .inr ⟨rfl, hmem⟩⟩
      by_contra hge
      exact hrange ⟨constraint, hconstraint, .inr ⟨rfl, column, hmem, not_lt.mp hge⟩⟩

/-! ## Snapshots -/

/-- A field is loaded where its value is one that keys have. -/
theorem loadField_ok_iff {row : StoredRow} {column : ColumnOrdinal} {field : Field} :
    loadField row column = .ok field ↔ ∃ before : Value, row.readColumn column = .ok before.value ∧
      field = { column, before, after := none, isExplicit := false } := by
  simp only [loadField, bind_ok_iff, pure_ok_iff, Value.copy_ok_iff]
  constructor
  · rintro ⟨_, hvalue, before, rfl, rfl⟩
    exact ⟨before, hvalue, rfl⟩
  · rintro ⟨before, hvalue, rfl⟩
    exact ⟨_, hvalue, before, rfl, rfl⟩

/-- What is loaded of one row. -/
structure IsSnapshot (table : PageNumber) (columns : List ColumnOrdinal) (stored : StoredRow)
    (row : Row) : Prop where
  table_eq : row.table = table
  locator_eq : row.locator = stored.locator
  kept : row.deleted = false
  fresh : ∀ field ∈ row.fields, field.after = none ∧ field.isExplicit = false
  columns_eq : row.fields.map Field.column = columns
  before_eq : ∀ field ∈ row.fields, stored.readColumn field.column = .ok field.before.value

/-- A loaded row is a snapshot of the stored one. -/
theorem isSnapshot_of_loadRow {table : PageNumber} {columns : List ColumnOrdinal}
    {stored : StoredRow} {row : Row} (h : loadRow table columns stored = .ok row) :
    IsSnapshot table columns stored row := by
  simp only [loadRow, bind_ok_iff, pure_ok_iff] at h
  obtain ⟨fields, hfields, rfl⟩ := h
  have : Nonempty Field :=
    ⟨{ column := 0, before := ⟨.null, rfl⟩, after := none, isExplicit := false }⟩
  obtain ⟨g, rfl, hg⟩ := exists_eq_map_of_mapM_ok hfields
  refine ⟨rfl, rfl, rfl, ?_, ?_, ?_⟩
  · intro field hfield
    obtain ⟨column, hcolumn, rfl⟩ := List.mem_map.mp hfield
    obtain ⟨before, -, heq⟩ := loadField_ok_iff.mp (hg column hcolumn)
    rw [heq]
    exact ⟨rfl, rfl⟩
  · rw [List.map_map]
    refine (List.map_congr_left fun column hcolumn => ?_).trans (List.map_id columns)
    obtain ⟨before, -, heq⟩ := loadField_ok_iff.mp (hg column hcolumn)
    rw [Function.comp_apply, heq]
    rfl
  · intro field hfield
    obtain ⟨column, hcolumn, rfl⟩ := List.mem_map.mp hfield
    obtain ⟨before, hbefore, heq⟩ := loadField_ok_iff.mp (hg column hcolumn)
    rw [heq]
    exact hbefore

/-- A field is found under its column. -/
theorem field_column {row : Row} {column : ColumnOrdinal} {field : Field}
    (h : row.field column = some field) : field.column = column := by
  simpa using List.find?_some h

/-- A loaded column is found. -/
theorem exists_field {row : Row} {columns : List ColumnOrdinal} {column : ColumnOrdinal}
    (hcolumns : row.fields.map Field.column = columns) (h : column ∈ columns) :
    ∃ field ∈ row.fields, row.field column = some field := by
  rw [← hcolumns] at h
  obtain ⟨field, hfield, hcolumn⟩ := List.mem_map.mp h
  have hsome : (row.field column).isSome = true := by
    rw [Row.field, List.find?_isSome]
    exact ⟨field, hfield, by simpa using hcolumn⟩
  obtain ⟨found, hfound⟩ := Option.isSome_iff_exists.mp hsome
  exact ⟨found, List.mem_of_find?_eq_some hfound, hfound⟩

/-- The rows of a component, table by table. -/
structure IsLoaded (database : Database) (constraints : List Constraint)
    (image : PageNumber → StoredRow → Row) : Prop where
  snapshot : ∀ table ∈ tables constraints, ∃ columns,
    keyColumns constraints table = .ok columns ∧
      ∀ stored ∈ (database table).rows, IsSnapshot table columns stored (image table stored)

/-- The rows of the component's tables, given the row of each stored row. -/
def component (database : Database) (constraints : List Constraint)
    (image : PageNumber → StoredRow → Row) : List Row :=
  (tables constraints).flatMap fun table => (database table).rows.map (image table)

/-- The rows of a component are loaded table by table. -/
theorem load_ok {database : Database} {constraints : List Constraint} {rows : List Row}
    (h : load database constraints = .ok rows) :
    ∃ image, rows = component database constraints image ∧
      IsLoaded database constraints image := by
  simp only [load, map_ok_iff] at h
  obtain ⟨tablesRows, htables, rfl⟩ := h
  obtain ⟨g, rfl, hg⟩ := exists_eq_map_of_mapM_ok htables
  -- a function for the rows of every table that was loaded
  have himage : ∀ table, ∃ image : StoredRow → Row, table ∈ tables constraints →
      g table = (database table).rows.map image ∧ ∃ columns,
        keyColumns constraints table = .ok columns ∧
          ∀ stored ∈ (database table).rows, IsSnapshot table columns stored (image stored) := by
    intro table
    have : Nonempty Row := ⟨Row.ofLongs 0 0 []⟩
    by_cases htable : table ∈ tables constraints
    · have hrows := hg table htable
      simp only [loadTable, bind_ok_iff] at hrows
      obtain ⟨columns, hcolumns, hrows⟩ := hrows
      obtain ⟨image, heq, himage⟩ := exists_eq_map_of_mapM_ok hrows
      exact ⟨image, fun _ => ⟨heq, columns, hcolumns, fun stored hstored =>
        isSnapshot_of_loadRow (himage stored hstored)⟩⟩
    · exact ⟨fun _ => Classical.ofNonempty, fun h => absurd h htable⟩
  choose image himage using himage
  refine ⟨image, ?_, ⟨fun table htable => (himage table htable).2⟩⟩
  rw [component, List.flatMap_def]
  congr 1
  exact List.map_congr_left fun table htable => (himage table htable).1

/-- The rows of one table are found in the component. -/
theorem filterMap_component {β : Type} {database : Database} {constraints : List Constraint}
    {image : PageNumber → StoredRow → Row} {f : Row → Option β} {table : PageNumber}
    (htable : table ∈ tables constraints)
    (hothers : ∀ other ∈ tables constraints, other ≠ table → ∀ stored ∈ (database other).rows,
      f (image other stored) = none) :
    (component database constraints image).filterMap f =
      (database table).rows.filterMap fun stored => f (image table stored) := by
  have hnodup := nodup_tables constraints
  unfold component
  rw [List.filterMap_flatMap]
  simp only [List.filterMap_map]
  generalize tables constraints = named at htable hothers hnodup
  have hempty : ∀ other ∈ named, other ≠ table →
      (database other).rows.filterMap (f ∘ image other) = [] := fun other hother hne =>
    List.filterMap_eq_nil_iff.mpr fun stored hstored => hothers other hother hne stored hstored
  clear hothers
  -- only the rows of one table are left, which is listed once
  induction named with
  | nil => simp at htable
  | cons first rest ih =>
    rw [List.nodup_cons] at hnodup
    rw [List.flatMap_cons]
    by_cases hfirst : first = table
    · subst hfirst
      have hrest : rest.flatMap (fun other => (database other).rows.filterMap (f ∘ image other)) =
          [] := List.flatMap_eq_nil_iff.mpr fun other hother =>
        hempty other (List.mem_cons_of_mem first hother) fun heq => hnodup.1 (heq ▸ hother)
      rw [hrest, List.append_nil]
      rfl
    · rw [hempty first List.mem_cons_self hfirst, List.nil_append]
      exact ih ((List.mem_cons.mp htable).resolve_left (Ne.symm hfirst)) hnodup.2
        fun other hother => hempty other (List.mem_cons_of_mem first hother)

/-- The rows of a component are images of stored rows. -/
theorem mem_component {database : Database} {constraints : List Constraint}
    {image : PageNumber → StoredRow → Row} {row : Row} :
    row ∈ component database constraints image ↔
      ∃ table ∈ tables constraints, ∃ stored ∈ (database table).rows,
        image table stored = row := by
  simp [component]

end Cascade

end Jet3
