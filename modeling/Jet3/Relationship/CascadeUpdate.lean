import Jet3.Library.Lookup
import Jet3.Relationship.CascadeRequest

/-!
# Cascading updates

An update never deletes: the state of its worklist is the rows of the request together with the
values assigned to their fields. One constraint overwrites, in every child tied to an assigned
parent, the key fields that are not explicit by the parent's current values.

* `feed` is what one constraint assigns;
* `propagateConstraint_update` and `propagateStep_induction` connect it to the worklist.
-/

namespace Jet3

open Outcome Lookup

namespace Cascade

/-! ## Assigned values -/

/-- The assigned value of each field, by the row of the request and the column. -/
abbrev Assignment : Type := Row → ColumnOrdinal → Option Value

/-- The row with other values assigned. -/
def Row.withAfter (row : Row) (after : ColumnOrdinal → Option Value) : Row :=
  { row with fields := row.fields.map fun field => { field with after := after field.column } }

/-- The rows with the values of an assignment. -/
def withAfter (rows : List Row) (g : Assignment) : List Row :=
  rows.map fun row => row.withAfter (g row)

/-- A cascade can assign this field. -/
def Row.isOpen (row : Row) (column : ColumnOrdinal) : Bool :=
  (row.field column).any fun field => !field.isExplicit

section Row

variable (row : Row) (after : ColumnOrdinal → Option Value)

@[simp]
theorem withAfter_table : (row.withAfter after).table = row.table := rfl

@[simp]
theorem withAfter_locator : (row.withAfter after).locator = row.locator := rfl

@[simp]
theorem withAfter_deleted : (row.withAfter after).deleted = row.deleted := rfl

/-- A field of a row with assigned values. -/
theorem field_withAfter (column : ColumnOrdinal) :
    (row.withAfter after).field column =
      (row.field column).map fun field => { field with after := after field.column } :=
  field_map rfl fun _ _ => rfl

/-- Assigning leaves the key before the change alone. -/
@[simp]
theorem key_withAfter (columns : List ColumnOrdinal) (kinds : List ScalarKeyType) :
    (row.withAfter after).key columns kinds false = row.key columns kinds false := by
  have hfields : (row.withAfter after).fields =
      row.fields.map fun field => { field with after := after field.column } := rfl
  exact key_before_map hfields (fun _ _ => ⟨rfl, rfl⟩) columns kinds

/-- Values are equal where they are the same. -/
theorem equal_value_iff {value other : Value} : value.equal other.value = true ↔ value = other := by
  cases value
  cases other
  simp [Value.equal]

/-- Assigning a field that holds `after`. -/
theorem assign_field (field : Field) (after : Option Value) (value : Value) :
    { field with after }.assign value.value false =
      if field.isExplicit then .ok ({ field with after }, false)
      else .ok ({ field with after := some value }, after != some value) := by
  rcases field with ⟨column, before, old, isExplicit⟩
  cases isExplicit
  · rcases after with _ | after
    · simp [Field.assign, Value.copy, value.scalar, bind, Except.bind, pure, Except.pure]
    · by_cases heq : after = value
      · subst heq
        have hequal : after.equal after.value = true := equal_value_iff.mpr rfl
        simp [Field.assign, hequal, pure, Except.pure]
      · have hequal : after.equal value.value = false := by
          rw [← Bool.not_eq_true, equal_value_iff]
          exact heq
        simp [Field.assign, hequal, heq, Value.copy, value.scalar, bind, Except.bind, pure,
          Except.pure]
  · simp [Field.assign, pure, Except.pure]

theorem map_update {fields : List Field} {column : ColumnOrdinal}
    (hnot : column ∉ fields.map Field.column) (after : ColumnOrdinal → Option Value)
    (value : Option Value) :
    (fields.map fun field =>
      { field with after := Function.update after column value field.column }) =
    fields.map fun field => { field with after := after field.column } := by
  refine List.map_congr_left fun field hfield => ?_
  have hne : field.column ≠ column := by
    rintro rfl
    exact hnot (List.mem_map_of_mem hfield)
  rw [Function.update_of_ne hne]

/-- Assigning one field of a row leaves the others alone. -/
theorem assignField_map {fields : List Field} (hnodup : (fields.map Field.column).Nodup)
    {column : ColumnOrdinal} {field : Field}
    (hfield : fields.find? (fun field => field.column = column) = some field)
    (after : ColumnOrdinal → Option Value) (value : Value) :
    Row.assignField column value.value false
        (fields.map fun field => { field with after := after field.column }) =
      if field.isExplicit then
        .ok (fields.map fun field => { field with after := after field.column }, false)
      else .ok (fields.map fun field =>
        { field with after := Function.update after column (some value) field.column },
        after column != some value) := by
  induction fields with
  | nil => simp at hfield
  | cons first rest ih =>
    rw [List.map_cons, List.nodup_cons] at hnodup
    rw [List.map_cons, Row.assignField]
    -- columns are different, so the first field of the column is the only one
    by_cases hfirst : first.column = column
    · rw [List.find?_cons_of_pos (by simpa using hfirst), Option.some.injEq] at hfield
      subst hfield
      subst hfirst
      rw [if_pos rfl, assign_field]
      rcases first with ⟨column, before, old, isExplicit⟩
      cases isExplicit
      · simp only [Bool.false_eq_true, if_false, List.map_cons, Function.update_self]
        rw [map_update hnodup.1]
        rfl
      · rfl
    · rw [List.find?_cons_of_neg (by simpa using hfirst)] at hfield
      rw [if_neg hfirst, ih hnodup.2 hfield]
      cases field.isExplicit
      · simp only [Bool.false_eq_true, if_false, List.map_cons, Function.update_of_ne hfirst]
        rfl
      · rfl

/-- Assigning one column. -/
theorem assign_withAfter {row : Row} (hnodup : (row.fields.map Field.column).Nodup)
    {column : ColumnOrdinal} {field : Field} (hfield : row.field column = some field)
    (after : ColumnOrdinal → Option Value) (value : Value) :
    (row.withAfter after).assign column value.value false =
      if field.isExplicit then .ok (row.withAfter after, false)
      else .ok (row.withAfter (Function.update after column (some value)),
        after column != some value) := by
  rw [Row.assign, Row.withAfter, assignField_map hnodup hfield]
  cases field.isExplicit <;> rfl

/-- What a list of assignments leaves in a row. -/
def overwrite (row : Row) (pairs : List (ColumnOrdinal × Value))
    (after : ColumnOrdinal → Option Value) (column : ColumnOrdinal) : Option Value :=
  if row.isOpen column then (pairs.lookup column).or (after column) else after column

/-- Assigning several columns, and whether that changed the row. -/
theorem assignAll_withAfter {row : Row} (hnodup : (row.fields.map Field.column).Nodup)
    {pairs : List (ColumnOrdinal × Value)} (hpairs : (pairs.map Prod.fst).Nodup)
    (hfields : ∀ pair ∈ pairs, ∃ field, row.field pair.1 = some field)
    (after : ColumnOrdinal → Option Value) (changed : Bool) :
    pairs.foldlM assignColumn (row.withAfter after, changed) =
      .ok (row.withAfter (overwrite row pairs after),
        changed || pairs.any fun pair => row.isOpen pair.1 && after pair.1 != some pair.2) := by
  induction pairs generalizing after changed with
  | nil =>
    have hnone : overwrite row [] after = after := by
      funext column
      simp [overwrite]
    simp [hnone, pure, Except.pure]
  | cons pair pairs ih =>
    rcases pair with ⟨assigned, value⟩
    rw [List.map_cons, List.nodup_cons] at hpairs
    rw [List.forall_mem_cons] at hfields
    obtain ⟨⟨field, hfield⟩, hfields⟩ := hfields
    have hne : ∀ other ∈ pairs, other.1 ≠ assigned := fun other hother heq =>
      hpairs.1 (List.mem_map.mpr ⟨other, hother, heq⟩)
    have hlookup : pairs.lookup assigned = none := by
      rw [List.lookup_eq_none_iff]
      intro other hother
      exact bne_iff_ne.mpr (hne other hother).symm
    have hopen : row.isOpen assigned = !field.isExplicit := by
      rw [Row.isOpen, hfield, Option.any_some]
    rw [List.foldlM_cons, assignColumn, assign_withAfter hnodup hfield]
    -- an open field is overwritten, an explicit one keeps its value
    cases hexplicit : field.isExplicit
    · rw [hexplicit] at hopen
      have hrest : overwrite row pairs (Function.update after assigned (some value)) =
          overwrite row ((assigned, value) :: pairs) after := by
        funext column
        by_cases hcolumn : column = assigned
        · subst hcolumn
          simp [overwrite, hopen, hlookup]
        · have hbeq : (column == assigned) = false := beq_eq_false_iff_ne.mpr hcolumn
          simp [overwrite, hcolumn, List.lookup_cons, hbeq]
      have hchanged : (pairs.any fun other => row.isOpen other.1 &&
          Function.update after assigned (some value) other.1 != some other.2) =
          pairs.any fun other => row.isOpen other.1 && after other.1 != some other.2 := by
        rw [Bool.eq_iff_iff, List.any_eq_true, List.any_eq_true]
        refine exists_congr fun other => and_congr_right fun hother => ?_
        rw [Function.update_of_ne (hne other hother)]
      have hstep := ih hpairs.2 hfields (Function.update after assigned (some value))
        (changed || after assigned != some value)
      rw [hrest, hchanged] at hstep
      simp only [Bool.false_eq_true, if_false]
      refine hstep.trans ?_
      simp only [List.any_cons, hopen, Bool.not_false, Bool.true_and, Bool.or_assoc]
    · rw [hexplicit] at hopen
      have hrest : overwrite row pairs after =
        overwrite row ((assigned, value) :: pairs) after := by
        funext column
        by_cases hcolumn : column = assigned
        · subst hcolumn
          simp [overwrite, hopen]
        · have hbeq : (column == assigned) = false := beq_eq_false_iff_ne.mpr hcolumn
          simp [overwrite, List.lookup_cons, hbeq]
      have hstep := ih hpairs.2 hfields after (changed || false)
      rw [hrest] at hstep
      simp only [if_true]
      refine hstep.trans ?_
      simp [hopen]

/-- The row changed exactly when some column holds another value. -/
theorem changed_iff {row : Row} {pairs : List (ColumnOrdinal × Value)}
    (hpairs : (pairs.map Prod.fst).Nodup) (after : ColumnOrdinal → Option Value) :
    (pairs.any fun pair => row.isOpen pair.1 && after pair.1 != some pair.2) = true ↔
      ∃ column, overwrite row pairs after column ≠ after column := by
  simp only [List.any_eq_true, Bool.and_eq_true, bne_iff_ne]
  constructor
  · rintro ⟨pair, hpair, hopen, hne⟩
    refine ⟨pair.1, ?_⟩
    rw [overwrite, if_pos hopen, lookup_eq_some_of_mem hpairs hpair, Option.some_or]
    exact hne.symm
  · rintro ⟨column, hne⟩
    by_cases hopen : row.isOpen column = true
    · rw [overwrite, if_pos hopen] at hne
      rcases hlookup : pairs.lookup column with _ | value
      · rw [hlookup, Option.none_or] at hne
        exact absurd rfl hne
      · rw [hlookup, Option.some_or] at hne
        exact ⟨_, mem_of_lookup hlookup, hopen, hne.symm⟩
    · rw [overwrite, if_neg hopen] at hne
      exact absurd rfl hne

end Row

/-! ## One constraint -/

section Feed

variable (constraint : Constraint) (g : Assignment) (parent child : Row)

/-- The constraint propagates an assignment of the parent's key to the child. -/
def fires : Bool :=
  constraint.flags.updates && ties constraint parent child &&
    constraint.parentColumns.any fun column => (g parent column).isSome

/-- The value of a field with `g` assigned. -/
def current (row : Row) (column : ColumnOrdinal) : Option Value :=
  (row.field column).map fun field => (g row column).getD field.before

/-- The value the parent hands to a child column. -/
def sent (column : ColumnOrdinal) : Option Value :=
  ((constraint.childColumns.zip constraint.parentColumns).lookup column).bind (current g parent)

/-- What the constraint leaves assigned after it propagated the parent. -/
def feed : Assignment := fun child column =>
  if fires constraint g parent child && child.isOpen column then
    (sent constraint g parent column).or (g child column)
  else g child column

variable {constraint g parent child}

/-- A constraint that does not fire hands nothing. -/
theorem feed_of_not_fires (h : fires constraint g parent child = false) :
    feed constraint g parent child = g child := by
  funext column
  simp [feed, h]

/-- A key that encodes has all its fields. -/
theorem exists_field_of_key {row : Row} {columns : List ColumnOrdinal}
    {kinds : List ScalarKeyType} {after : Bool} {key : Option Key}
    (h : row.key columns kinds after = .ok key) :
    ∀ column ∈ columns, ∃ field, row.field column = some field := by
  simp only [Row.key, Row.values, bind_ok_iff] at h
  obtain ⟨values, ⟨-, -, hvalues⟩, -⟩ := h
  intro column hmem
  obtain ⟨value, hvalue⟩ := exists_mapM_ok_iff.mp ⟨values, hvalues⟩ column hmem
  simp only [bind_ok_iff, okOr_ok_iff] at hvalue
  obtain ⟨field, hfield, -⟩ := hvalue
  exact ⟨field, hfield⟩

/-- The current value of a column is that of its field. -/
theorem current_eq {row : Row} {column : ColumnOrdinal} {field : Field}
    (hfield : row.field column = some field) :
    ∃ found, (row.withAfter (g row)).field column = some found ∧
      current g row column = some found.current := by
  refine ⟨_, by rw [field_withAfter, hfield, Option.map_some], ?_⟩
  rw [current, hfield, Option.map_some, Field.current, field_column hfield]

/-- The values a parent hands down are its current ones. -/
theorem replacements_withAfter (hkept : parent.deleted = false)
    (hfields : ∀ column ∈ constraint.parentColumns, ∃ field, parent.field column = some field) :
    ∃ values, replacements constraint (parent.withAfter (g parent)) = .ok values ∧
      values.length = constraint.parentColumns.length ∧
      constraint.parentColumns.map (current g parent) = values.map some := by
  -- every key column has a current value, which is read and copied
  have hcurrent : ∀ column, ∃ value : Value, column ∈ constraint.parentColumns →
      current g parent column = some value ∧
        ∃ found, (parent.withAfter (g parent)).field column = some found ∧
          found.current = value := by
    intro column
    by_cases hmem : column ∈ constraint.parentColumns
    · obtain ⟨field, hfield⟩ := hfields column hmem
      obtain ⟨found, hfound, hvalue⟩ := current_eq (g := g) hfield
      exact ⟨found.current, fun _ => ⟨hvalue, found, hfound, rfl⟩⟩
    · exact ⟨⟨.null, rfl⟩, fun hin => absurd hin hmem⟩
  choose value hvalue using hcurrent
  refine ⟨constraint.parentColumns.map value, ?_, by simp, ?_⟩
  · have hread : (parent.withAfter (g parent)).values constraint.parentColumns true =
        .ok (constraint.parentColumns.map fun column => (value column).value) := by
      refine values_eq constraint.fields_le fun column hmem => ?_
      obtain ⟨-, found, hfound, heq⟩ := hvalue column hmem
      exact ⟨found, hfound, by rw [if_pos rfl, heq]⟩
    have hcopy : (constraint.parentColumns.map fun column => (value column).value).mapM
        Value.copy = .ok (constraint.parentColumns.map value) :=
      mapM_map_eq_ok fun column _ => Value.copy_ok_iff.mpr rfl
    simp only [replacements, withAfter_deleted, hkept, Bool.false_eq_true, if_false, bind_ok_iff]
    exact ⟨_, hread, hcopy⟩
  · rw [List.map_map]
    exact List.map_congr_left fun column hmem => (hvalue column hmem).1

/-- Looking a column up among the values handed down. -/
theorem lookup_zip_map {columns others : List ColumnOrdinal} {values : List Value}
    {f : ColumnOrdinal → Option Value} (h : others.map f = values.map some)
    (column : ColumnOrdinal) :
    (columns.zip values).lookup column = ((columns.zip others).lookup column).bind f := by
  induction columns generalizing others values with
  | nil => simp
  | cons first columns ih =>
    rcases others with _ | ⟨other, others⟩ <;> rcases values with _ | ⟨value, values⟩
    · simp
    · simp at h
    · simp at h
    · simp only [List.map_cons, List.cons.injEq] at h
      rw [List.zip_cons_cons, List.zip_cons_cons, List.lookup_cons, List.lookup_cons]
      by_cases heq : column = first
      · simp [heq, h.1]
      · rw [beq_eq_false_iff_ne.mpr heq]
        exact ih h.2

/-- Overwriting by the values handed down is feeding. -/
theorem overwrite_eq_feed {values : List Value}
    (hvalues : constraint.parentColumns.map (current g parent) = values.map some)
    (hfires : fires constraint g parent child = true) :
    overwrite child (constraint.childColumns.zip values) (g child) =
      feed constraint g parent child := by
  funext column
  simp only [overwrite, feed, hfires, Bool.true_and, sent, lookup_zip_map hvalues]

/-- What a child row receives from an assigned parent. -/
theorem propagateChild_update {values : List Value} {before : Option Key}
    (hparent : parent.table = constraint.parent) (hkept : child.deleted = false)
    (hnodup : (child.fields.map Field.column).Nodup)
    (hbefore : parent.key constraint.parentColumns constraint.parentKinds false = .ok before)
    (hchild : child.table = constraint.child →
      ∃ key, child.key constraint.childColumns constraint.childKinds false = .ok key)
    (hvalues : constraint.parentColumns.map (current g parent) = values.map some)
    (hassigned : (constraint.parentColumns.any fun column => (g parent column).isSome) = true)
    (hupdates : constraint.flags.updates = true) :
    ∃ changed, propagateChild constraint false before values (child.withAfter (g child)) =
        .ok (child.withAfter (feed constraint g parent child), changed) ∧
      (changed = true ↔ ∃ column, feed constraint g parent child column ≠ g child column) := by
  have hfires : fires constraint g parent child = ties constraint parent child := by
    rw [fires, hupdates, hassigned, Bool.true_and, Bool.and_true]
  have hskip : ties constraint parent child = false →
      feed constraint g parent child = g child := fun hties =>
    feed_of_not_fires (hfires.trans hties)
  by_cases htable : child.table = constraint.child
  · obtain ⟨key, hkey⟩ := hchild htable
    have hties : ties constraint parent child = equal before key := by
      simp [ties, sameKey, hparent, htable, hbefore, hkey]
    unfold propagateChild
    rw [if_neg (by simp [htable, hkept]), key_withAfter, hkey]
    -- a child of another key stays as it is
    cases hequal : equal before key
    · rw [hequal] at hties
      refine ⟨false, ?_, by simp [hskip hties]⟩
      simp [hequal, hskip hties, bind, Except.bind, pure, Except.pure]
    · rw [hequal] at hties
      have hlength : constraint.childColumns.length = values.length := by
        rw [constraint.childColumns_length, ← List.length_map (f := current g parent), hvalues,
          List.length_map]
      have hpairs : ((constraint.childColumns.zip values).map Prod.fst) =
          constraint.childColumns := List.map_fst_zip hlength.le
      have hcolumns : ((constraint.childColumns.zip values).map Prod.fst).Nodup := by
        rw [hpairs]
        exact constraint.childColumns_nodup
      have hfields : ∀ pair ∈ constraint.childColumns.zip values,
          ∃ field, child.field pair.1 = some field := fun pair hpair =>
        exists_field_of_key hkey pair.1 (hpairs ▸ List.mem_map_of_mem hpair)
      have hassign := assignAll_withAfter hnodup hcolumns hfields (g child) false
      rw [overwrite_eq_feed hvalues (hfires.trans hties)] at hassign
      refine ⟨(constraint.childColumns.zip values).any fun pair =>
        child.isOpen pair.1 && g child pair.1 != some pair.2, ?_, ?_⟩
      · simp only [hequal, bind, Except.bind, not_true_eq_false, if_false, Bool.false_eq_true]
        simpa using hassign
      · rw [changed_iff hcolumns, overwrite_eq_feed hvalues (hfires.trans hties)]
  · have hties : ties constraint parent child = false := by simp [ties, htable]
    refine ⟨false, ?_, by simp [hskip hties]⟩
    rw [propagateChild, if_pos (.inl htable), hskip hties]
    rfl

/-- What a request leaves for the worklist of an update. -/
structure UpdateRows (constraints : List Constraint) (rows : List Row) : Prop where
  kept : ∀ row ∈ rows, row.deleted = false
  columns_nodup : ∀ row ∈ rows, (row.fields.map Field.column).Nodup
  encodes : Encodes constraints rows

/-- A row is assigned in some columns where one of them has a new value. -/
theorem assigned_withAfter {row : Row} {columns : List ColumnOrdinal}
    (hkept : row.deleted = false)
    (hfields : ∀ column ∈ columns, ∃ field, row.field column = some field) :
    (row.withAfter (g row)).assigned columns =
      columns.any fun column => (g row column).isSome := by
  rw [Row.assigned, withAfter_deleted, hkept, Bool.false_or, Row.withAfter, List.any_map,
    Bool.eq_iff_iff, List.any_eq_true, List.any_eq_true]
  simp only [Function.comp_apply, Bool.and_eq_true, List.contains_iff_mem]
  constructor
  · rintro ⟨field, -, hsome, hmem⟩
    exact ⟨field.column, hmem, hsome⟩
  · rintro ⟨column, hmem, hsome⟩
    obtain ⟨field, hfield⟩ := hfields column hmem
    rw [← field_column hfield] at hmem hsome
    exact ⟨field, List.mem_of_find?_eq_some hfield, hsome, hmem⟩

/-- One constraint assigns what it feeds, and queues the rows that changed. -/
theorem propagateConstraint_update {constraints : List Constraint} {rows : List Row}
    (hrows : UpdateRows constraints rows) {i : ℕ} (hconstraint : constraint ∈ constraints)
    (hi : rows[i]? = some parent) (g : Assignment) (queue : List ℕ) :
    ∃ pushed, propagateConstraint i (withAfter rows g, queue) constraint =
        .ok (withAfter rows (feed constraint g parent), queue ++ pushed) ∧ pushed.Nodup ∧
      ∀ j, j ∈ pushed ↔ ∃ child, rows[j]? = some child ∧
        ∃ column, feed constraint g parent child column ≠ g child column := by
  have hmem : parent ∈ rows := List.mem_of_getElem? hi
  have hget : (withAfter rows g)[i]? = some (parent.withAfter (g parent)) := by
    rw [withAfter, List.getElem?_map, hi, Option.map_some]
  by_cases hactive : parent.table = constraint.parent ∧ constraint.flags.updates = true ∧
      (constraint.parentColumns.any fun column => (g parent column).isSome) = true
  · obtain ⟨htable, hupdates, hassigned⟩ := hactive
    obtain ⟨before, hbefore⟩ := (hrows.encodes constraint hconstraint parent hmem).1 htable
    have hfields := exists_field_of_key hbefore
    obtain ⟨values, hreplacements, -, hvalues⟩ :=
      replacements_withAfter (g := g) (hrows.kept parent hmem) hfields
    -- every child is fed or stays, and says whether it has changed
    have hchildren : ∀ child, ∃ changed, child ∈ rows →
        propagateChild constraint false before values (child.withAfter (g child)) =
          .ok (child.withAfter (feed constraint g parent child), changed) ∧
        (changed = true ↔ ∃ column, feed constraint g parent child column ≠ g child column) := by
      intro child
      by_cases hin : child ∈ rows
      · obtain ⟨changed, hok, hiff⟩ := propagateChild_update htable (hrows.kept child hin)
          (hrows.columns_nodup child hin) hbefore
          (hrows.encodes constraint hconstraint child hin).2 hvalues hassigned hupdates
        exact ⟨changed, fun _ => ⟨hok, hiff⟩⟩
      · exact ⟨false, fun h => absurd h hin⟩
    choose changed hchanged using hchildren
    have hresults : (withAfter rows g).mapM (propagateChild constraint false before values) =
        .ok (rows.map fun child =>
          (child.withAfter (feed constraint g parent child), changed child)) :=
      mapM_map_eq_ok fun child hin => (hchanged child hin).1
    refine ⟨(List.range rows.length).filter fun j => (rows[j]?.map changed).getD false, ?_,
      List.nodup_range.filter _, fun j => ?_⟩
    · simp only [propagateConstraint, hget]
      rw [if_neg (by simp [htable, assigned_withAfter (hrows.kept parent hmem) hfields, hassigned,
        Constraint.cascades, hrows.kept parent hmem, hupdates])]
      simp only [key_withAfter, hbefore, hreplacements, withAfter_deleted, hrows.kept parent hmem,
        hresults, bind_ok_iff, Except.ok.injEq, exists_eq_left', pure_ok_iff, List.map_map,
        List.length_map, List.getElem?_map, Option.map_map]
      rfl
    · simp only [List.mem_filter, List.mem_range]
      constructor
      · rintro ⟨hlt, hpushed⟩
        rw [List.getElem?_eq_getElem hlt, Option.map_some, Option.getD_some] at hpushed
        exact ⟨_, List.getElem?_eq_getElem hlt,
          (hchanged _ (List.getElem_mem hlt)).2.mp hpushed⟩
      · rintro ⟨child, hchild, hne⟩
        refine ⟨(List.getElem?_eq_some_iff.mp hchild).1, ?_⟩
        rw [hchild, Option.map_some, Option.getD_some]
        exact (hchanged child (List.mem_of_getElem? hchild)).2.mpr hne
  · -- a constraint that is passed over feeds no child
    have hfeed : feed constraint g parent = g := by
      funext child
      refine feed_of_not_fires ?_
      by_contra hfires
      simp only [fires, ties, Bool.not_eq_false, Bool.and_eq_true, beq_iff_eq] at hfires
      exact hactive ⟨hfires.1.2.1.1, hfires.1.1, hfires.2⟩
    refine ⟨[], ?_, List.nodup_nil, fun j => by simp [hfeed]⟩
    simp only [propagateConstraint, hget, hfeed, List.append_nil]
    rw [if_pos]
    · rfl
    · by_contra hnone
      simp only [not_or, not_not, withAfter_table, withAfter_deleted, hrows.kept parent hmem,
        Constraint.cascades, Bool.false_eq_true, if_false] at hnone
      obtain ⟨htable, hassigned, hupdates⟩ := hnone
      obtain ⟨before, hbefore⟩ := (hrows.encodes constraint hconstraint parent hmem).1 htable
      rw [assigned_withAfter (hrows.kept parent hmem) (exists_field_of_key hbefore)] at hassigned
      exact hactive ⟨htable, hupdates, hassigned⟩

/-- The induction rule of a queue item: what every constraint preserves holds of what the item
leaves assigned and of the rows it pushes. -/
theorem propagateStep_induction {constraints : List Constraint} {rows : List Row}
    (hrows : UpdateRows constraints rows) {i : ℕ} (hi : rows[i]? = some parent) (g : Assignment)
    (motive : List Constraint → Assignment → List ℕ → Prop) (init : motive [] g [])
    (step : ∀ done constraint rest g' queue pushed, constraints = done ++ constraint :: rest →
      motive done g' queue →
      propagateConstraint i (withAfter rows g', queue) constraint =
        .ok (withAfter rows (feed constraint g' parent), queue ++ pushed) → pushed.Nodup →
      (∀ j, j ∈ pushed ↔ ∃ child, rows[j]? = some child ∧
        ∃ column, feed constraint g' parent child column ≠ g' child column) →
      motive (done ++ [constraint]) (feed constraint g' parent) (queue ++ pushed)) :
    ∃ g' pushed, propagateStep constraints (withAfter rows g) i =
      .ok (withAfter rows g', pushed) ∧ motive constraints g' pushed := by
  -- over the constraints that are left, with those done in front
  suffices key : ∀ rest done g' queue, constraints = done ++ rest → motive done g' queue →
      ∃ g'' pushed, rest.foldlM (propagateConstraint i) (withAfter rows g', queue) =
        .ok (withAfter rows g'', pushed) ∧ motive constraints g'' pushed from
    key constraints [] g [] rfl init
  intro rest
  induction rest with
  | nil =>
    intro done g' queue hsplit hmotive
    rw [List.append_nil] at hsplit
    exact ⟨g', queue, rfl, hsplit ▸ hmotive⟩
  | cons constraint rest ih =>
    intro done g' queue hsplit hmotive
    have hconstraint : constraint ∈ constraints := by
      rw [hsplit]
      exact List.mem_append_right _ List.mem_cons_self
    obtain ⟨pushed, hok, hnodup, hpushed⟩ :=
      propagateConstraint_update hrows hconstraint hi g' queue
    rw [List.foldlM_cons, hok]
    exact ih (done ++ [constraint]) _ _ (by simp [hsplit])
      (step done constraint rest g' queue pushed hsplit hmotive hok hnodup hpushed)

end Feed

end Cascade

end Jet3
