import Jet3.Relationship.CascadeRequest
import Jet3.Relationship.CascadeValidation
import Jet3.Relationship.MutationCheck

/-!
# The restricting and the cascading path agree

When no constraint of the component cascades the kind of change, the worklist ends after the
selected row and `prepare` accepts exactly the changes the restricting check accepts.

* `Requested` relates the rows after the request to the stored rows;
* `constraint_agrees` compares the two paths on one constraint;
* `prepare_iff_check` is the agreement of the whole paths.
-/

namespace Jet3

open Outcome

namespace Cascade

/-! ## The selected row -/

/-- The row of each stored row after the request: `row` for the selected one. -/
def requestedImage (image : PageNumber → StoredRow → Row) (target : PageNumber)
    (locator : RowLocator) (row : Row) (table : PageNumber) (stored : StoredRow) : Row :=
  if table = target ∧ stored.locator = locator then row else image table stored

/-- A map of rows acts on a component table by table. -/
theorem map_component {database : Database} {constraints : List Constraint}
    {image image' : PageNumber → StoredRow → Row} {f : Row → Row}
    (h : ∀ table ∈ tables constraints, ∀ stored ∈ (database table).rows,
      f (image table stored) = image' table stored) :
    (component database constraints image).map f = component database constraints image' := by
  unfold component
  rw [List.map_flatMap]
  refine List.flatMap_congr fun table htable => ?_
  rw [List.map_map]
  exact List.map_congr_left fun stored hstored => h table htable stored hstored

/-- The rows of a component have different tables or locators. -/
theorem nodup_component {database : Database} {constraints : List Constraint}
    {image : PageNumber → StoredRow → Row} (h : IsLoaded database constraints image) :
    ((component database constraints image).map fun row => (row.table, row.locator)).Nodup := by
  have hids : (component database constraints image).map (fun row => (row.table, row.locator)) =
      (tables constraints).flatMap fun table =>
        (database table).rows.map fun stored => (table, stored.locator) := by
    unfold component
    rw [List.map_flatMap]
    refine List.flatMap_congr fun table htable => ?_
    rw [List.map_map]
    refine List.map_congr_left fun stored hstored => ?_
    obtain ⟨columns, -, hsnapshot⟩ := h.snapshot table htable
    rw [Function.comp_apply, (hsnapshot stored hstored).table_eq,
      (hsnapshot stored hstored).locator_eq]
  rw [hids, List.nodup_flatMap]
  constructor
  · intro table _
    have hnodup := (database table).locators_nodup.map (f := fun locator => (table, locator))
      fun _ _ heq => (Prod.mk.inj heq).2
    rwa [List.map_map] at hnodup
  · -- rows of different tables
    refine (nodup_tables constraints).imp fun {a b} hne => ?_
    rintro ⟨table, locator⟩ ha hb
    obtain ⟨_, _, heq⟩ := List.mem_map.mp ha
    obtain ⟨_, _, heq'⟩ := List.mem_map.mp hb
    exact hne ((Prod.mk.inj heq).1.trans (Prod.mk.inj heq').1.symm)

/-- The request was assigned to the row of `target` at `locator`, which is at `selected`. -/
structure Requested (database : Database) (constraints : List Constraint) (target : PageNumber)
    (change : Change) (lowered : Change) (locator : RowLocator)
    (image : PageNumber → StoredRow → Row) (selected : ℕ) : Prop where
  identity : ∀ table ∈ tables constraints, ∀ stored ∈ (database table).rows,
    (image table stored).table = table ∧ (image table stored).locator = stored.locator
  agrees : ∀ constraint ∈ constraints, ∀ table side, IsSide constraint table side → ∀ kinds,
    ∀ stored ∈ (database table).rows,
      Agrees side kinds (Mutation.changeOf target lowered table) stored (image table stored)
  deleted : ∀ stored ∈ (database target).rows, stored.locator = locator →
    (image target stored).deleted = change.isDelete
  others : ∀ table ∈ tables constraints, ∀ stored ∈ (database table).rows,
    ¬(table = target ∧ stored.locator = locator) →
      ∀ field ∈ (image table stored).fields, field.after = none
  position : ∀ row i, (row, i) ∈ (component database constraints image).zipIdx →
    (row.table = target ∧ row.locator = locator ↔ i = selected)

/-- The sides of a constraint are tables of the component. -/
theorem mem_tables_of_isSide {constraints : List Constraint} {constraint : Constraint}
    {table : PageNumber} {side : List ColumnOrdinal} (hconstraint : constraint ∈ constraints)
    (h : IsSide constraint table side) : table ∈ tables constraints :=
  mem_tables.mpr ⟨constraint, hconstraint, h.imp And.left And.left⟩

theorem locator_lowered {autoIncrement : ColumnOrdinal → Bool} {change : Change}
    {stored : StoredRow} : (change.lowered autoIncrement stored).locator = change.locator := by
  cases change <;> rfl

theorem isReplace_lowered {autoIncrement : ColumnOrdinal → Bool} {change : Change}
    {stored : StoredRow} : (change.lowered autoIncrement stored).isReplace = change.isReplace := by
  cases change <;> rfl

/-- Every side of a constraint is loaded. -/
theorem IsLoaded.side {database : Database} {constraints : List Constraint}
    {image : PageNumber → StoredRow → Row} (h : IsLoaded database constraints image)
    {constraint : Constraint} (hconstraint : constraint ∈ constraints) {table : PageNumber}
    {side : List ColumnOrdinal} (hside : IsSide constraint table side) :
    ∃ columns, side ⊆ columns ∧
      ∀ stored ∈ (database table).rows, IsSnapshot table columns stored (image table stored) := by
  obtain ⟨columns, hcolumns, hsnapshot⟩ :=
    h.snapshot table (mem_tables_of_isSide hconstraint hside)
  exact ⟨columns, fun column hmem =>
    (mem_keyColumns hcolumns).mpr ⟨constraint, hconstraint, side, hside, hmem⟩, hsnapshot⟩

/-- The identity of a loaded row. -/
theorem IsLoaded.identity {database : Database} {constraints : List Constraint}
    {image : PageNumber → StoredRow → Row} (h : IsLoaded database constraints image)
    {table : PageNumber} (htable : table ∈ tables constraints) {stored : StoredRow}
    (hstored : stored ∈ (database table).rows) :
    (image table stored).table = table ∧ (image table stored).locator = stored.locator ∧
      (image table stored).deleted = false ∧
      ∀ field ∈ (image table stored).fields, field.after = none := by
  obtain ⟨columns, -, hsnapshot⟩ := h.snapshot table htable
  exact ⟨(hsnapshot stored hstored).table_eq, (hsnapshot stored hstored).locator_eq,
    (hsnapshot stored hstored).kept, fun field hfield =>
      ((hsnapshot stored hstored).fresh field hfield).1⟩

section Selected

variable {database : Database} {constraints : List Constraint}
  {image : PageNumber → StoredRow → Row} {target : PageNumber} {change : Change}
  {stored : StoredRow}

/-- The selected row is the one at the place of the change. -/
theorem isSelected_iff (hlocator : change.locator = some stored.locator) {row : Row} :
    isSelected target change row = true ↔
      row.table = target ∧ row.locator = stored.locator := by
  simp only [isSelected, hlocator, decide_eq_true_eq, Option.some.injEq]
  rw [eq_comm (a := stored.locator)]

/-- The image of a stored row is selected where the stored row is changed. -/
theorem isSelected_image_iff (hloaded : IsLoaded database constraints image)
    (hlocator : change.locator = some stored.locator) {table : PageNumber}
    (htable : table ∈ tables constraints) {other : StoredRow}
    (hother : other ∈ (database table).rows) :
    isSelected target change (image table other) = true ↔
      table = target ∧ other.locator = stored.locator := by
  obtain ⟨htableEq, hlocatorEq, -⟩ := hloaded.identity htable hother
  rw [isSelected_iff hlocator, htableEq, hlocatorEq]

/-- The selected row is found. -/
theorem exists_position (hloaded : IsLoaded database constraints image)
    (htarget : target ∈ tables constraints) (hstored : stored ∈ (database target).rows)
    (hlocator : change.locator = some stored.locator) :
    ∃ selected, (component database constraints image).findIdx? (isSelected target change) =
        some selected ∧
      (component database constraints image)[selected]? = some (image target stored) := by
  have hmem : image target stored ∈ component database constraints image :=
    mem_component.mpr ⟨target, htarget, stored, hstored, rfl⟩
  obtain ⟨selected, hfind⟩ : ∃ selected,
      (component database constraints image).findIdx? (isSelected target change) =
        some selected := by
    rw [← Option.isSome_iff_exists, List.findIdx?_isSome, List.any_eq_true]
    exact ⟨_, hmem, (isSelected_image_iff hloaded hlocator htarget hstored).mpr ⟨rfl, rfl⟩⟩
  refine ⟨selected, hfind, ?_⟩
  obtain ⟨hlt, hsel, -⟩ := List.findIdx?_eq_some_iff_getElem.mp hfind
  rw [List.getElem?_eq_getElem hlt, Option.some.injEq]
  obtain ⟨table, htable, other, hother, heq⟩ := mem_component.mp (List.getElem_mem hlt)
  rw [← heq, isSelected_image_iff hloaded hlocator htable hother] at hsel
  obtain ⟨rfl, hsel⟩ := hsel
  rw [← heq, List.inj_on_of_nodup_map (database table).locators_nodup hother hstored hsel]

/-- The request of an accepted selection was assigned to the selected row. -/
theorem assigned_of_select (hloaded : IsLoaded database constraints image)
    (htarget : target ∈ tables constraints) (hstored : stored ∈ (database target).rows)
    (hlocator : change.locator = some stored.locator) {autoIncrement : ColumnOrdinal → Bool}
    {result : List Row × ℕ}
    (h : select autoIncrement target change (component database constraints image) = .ok result) :
    ∃ row, assignRow autoIncrement change (image target stored) = .ok row := by
  obtain ⟨selected, hfind, hfound⟩ := exists_position hloaded htarget hstored hlocator
  simp only [select, bind_ok_iff, okOr_ok_iff, pure_ok_iff] at h
  obtain ⟨selected', hfind', row, hrow, row', hassign, -⟩ := h
  have hsame : selected' = selected := Option.some.inj (hfind'.symm.trans hfind)
  rw [hsame, hfound] at hrow
  cases hrow
  exact ⟨row', hassign⟩

/-- Selecting a row of the component assigns the request to it and to nothing else. -/
theorem select_component (hloaded : IsLoaded database constraints image)
    (htarget : target ∈ tables constraints) (hstored : stored ∈ (database target).rows)
    (hlocator : change.locator = some stored.locator) {autoIncrement : ColumnOrdinal → Bool}
    {row : Row} (hassign : assignRow autoIncrement change (image target stored) = .ok row) :
    ∃ selected, select autoIncrement target change (component database constraints image) =
        .ok (component database constraints
          (requestedImage image target stored.locator row), selected) ∧
      Requested database constraints target change (change.lowered autoIncrement stored)
        stored.locator (requestedImage image target stored.locator row) selected := by
  obtain ⟨selected, hfind, hfound⟩ := exists_position hloaded htarget hstored hlocator
  have hkey : ∀ a ∈ component database constraints image,
    ∀ b ∈ component database constraints image,
      isSelected target change a = true → isSelected target change b = true →
        (a.table, a.locator) = (b.table, b.locator) := by
    intro a _ b _ ha hb
    rw [((isSelected_iff hlocator).mp ha).1, ((isSelected_iff hlocator).mp ha).2,
      ((isSelected_iff hlocator).mp hb).1, ((isSelected_iff hlocator).mp hb).2]
  have hnodup := nodup_component hloaded
  obtain ⟨htableEq, hlocatorEq, hkept, -⟩ := hloaded.identity htarget hstored
  obtain ⟨hrowTable, hrowLocator, hrowDeleted, -⟩ := assignRow_ok hassign
  rw [htableEq] at hrowTable
  rw [hlocatorEq] at hrowLocator
  -- only the selected row gets another image
  have hmap : (component database constraints image).map
      (fun a => if isSelected target change a then row else a) =
      component database constraints (requestedImage image target stored.locator row) := by
    refine map_component fun table htable other hother => ?_
    have himage : isSelected target change (image table other) = true ↔ _ :=
      isSelected_image_iff hloaded hlocator htable hother
    unfold requestedImage
    -- the selected row agrees with the lowered change, the others with none
    by_cases hsel : table = target ∧ other.locator = stored.locator
    · rw [if_pos (himage.mpr hsel), if_pos hsel]
    · rw [if_neg fun h => hsel (himage.mp h), if_neg hsel]
  refine ⟨selected, ?_, ?_, ?_, ?_, ?_, ?_⟩
  · rw [← hmap, ← set_eq_map hnodup hkey hfind]
    simp only [select, bind_ok_iff, okOr_ok_iff, pure_ok_iff]
    exact ⟨selected, hfind, _, hfound, row, hassign, rfl⟩
  · intro table htable other hother
    obtain ⟨hotherTable, hotherLocator, -⟩ := hloaded.identity htable hother
    unfold requestedImage
    split
    · rename_i hsel
      rw [hrowTable, hrowLocator, hsel.1, hsel.2]
      exact ⟨rfl, rfl⟩
    · exact ⟨hotherTable, hotherLocator⟩
  · intro constraint hconstraint table side hside kinds other hother
    obtain ⟨columns, hsub, hsnap⟩ := hloaded.side hconstraint hside
    unfold requestedImage Mutation.changeOf
    by_cases hsel : table = target ∧ other.locator = stored.locator
    · obtain ⟨rfl, hsel⟩ := hsel
      obtain rfl := List.inj_on_of_nodup_map (database table).locators_nodup hother hstored hsel
      rw [if_pos rfl, if_pos ⟨rfl, rfl⟩]
      exact agrees_selected (hsnap other hother) hsub hside.length_le hside.ne_nil hlocator hassign
    · rw [if_neg hsel]
      refine agrees_other (hsnap other hother) hsub hside.length_le fun c hc => ?_
      split at hc
      · rename_i htable
        cases hc
        rw [locator_lowered, hlocator]
        exact fun heq => hsel ⟨htable, (Option.some.inj heq).symm⟩
      · cases hc
  · intro other hother hsel
    rw [requestedImage, if_pos ⟨rfl, hsel⟩, hrowDeleted, hkept, Bool.or_false]
  · intro table htable other hother hsel
    rw [requestedImage, if_neg hsel]
    exact (hloaded.identity htable hother).2.2.2
  · intro row' i hmem
    rw [List.mk_mem_zipIdx_iff_getElem?, ← hmap, List.getElem?_map, Option.map_eq_some_iff] at hmem
    obtain ⟨a, ha, rfl⟩ := hmem
    rw [← position_iff hnodup hkey hfind ha]
    by_cases hsel : isSelected target change a = true
    · rw [if_pos hsel, hrowTable, hrowLocator]
      simp [hsel]
    · rw [if_neg hsel, isSelected_iff hlocator]

end Selected

/-! ## One constraint -/

section Constraint

variable {database : Database} {constraints : List Constraint} {target : PageNumber}
  {change lowered : Change} {locator : RowLocator} {image : PageNumber → StoredRow → Row}
  {selected : ℕ} {constraint : Constraint}

theorem isSide_parent (constraint : Constraint) :
    IsSide constraint constraint.parent constraint.parentColumns := .inl ⟨rfl, rfl⟩

theorem isSide_child (constraint : Constraint) :
    IsSide constraint constraint.child constraint.childColumns := .inr ⟨rfl, rfl⟩

theorem parent_mem_tables (hconstraint : constraint ∈ constraints) :
    constraint.parent ∈ tables constraints :=
  mem_tables_of_isSide hconstraint (isSide_parent constraint)

theorem child_mem_tables (hconstraint : constraint ∈ constraints) :
    constraint.child ∈ tables constraints :=
  mem_tables_of_isSide hconstraint (isSide_child constraint)

/-- What the keys of a row are to the restricting path once they encode. -/
theorem Agrees.spec {side : List ColumnOrdinal} {kinds : List ScalarKeyType}
    {change : Option Change} {stored : StoredRow} {row : Row}
    (h : Agrees side kinds change stored row)
    (hencodes : ∃ pair, Mutation.rowKeys side kinds change stored = .ok pair) :
    row.key side kinds false = .ok (Mutation.beforeOf side kinds change stored) ∧
      (row.deleted = true ∧ Mutation.afterOf side kinds change stored = none ∨
        row.deleted = false ∧ ∃ key, Mutation.afterOf side kinds change stored = some key ∧
          row.key side kinds true = .ok key) := by
  obtain ⟨⟨before, after⟩, hpair⟩ := hencodes
  have hbefore : Mutation.beforeOf side kinds change stored = before := by
    simp [Mutation.beforeOf, hpair, Except.toOption]
  have hafter : Mutation.afterOf side kinds change stored = after := by
    simp [Mutation.afterOf, hpair, Except.toOption]
  rw [hbefore, hafter]
  exact (h.keys before after).mp hpair

/-- The keys of a row encode when they do before the change and, unless it is deleted, after it. -/
theorem Agrees.exists_keys {side : List ColumnOrdinal} {kinds : List ScalarKeyType}
    {change : Option Change} {stored : StoredRow} {row : Row}
    (h : Agrees side kinds change stored row) (hbefore : ∃ key, row.key side kinds false = .ok key)
    (hafter : row.deleted = false → ∃ key, row.key side kinds true = .ok key) :
    ∃ pair, Mutation.rowKeys side kinds change stored = .ok pair := by
  obtain ⟨before, hbefore⟩ := hbefore
  cases hdeleted : row.deleted
  · obtain ⟨after, hafter⟩ := hafter hdeleted
    exact ⟨_, (h.keys before (some after)).mpr ⟨hbefore, .inr ⟨hdeleted, after, rfl, hafter⟩⟩⟩
  · exact ⟨_, (h.keys before none).mpr ⟨hbefore, .inl ⟨hdeleted, rfl⟩⟩⟩

/-- An assigned row is the one the change selects. -/
theorem selected_of_assigned {side : List ColumnOrdinal} {table : PageNumber} {stored : StoredRow}
    (hlocator : lowered.locator = some locator)
    (h : Mutation.isAssigned side (Mutation.changeOf target lowered table) stored = true) :
    table = target ∧ stored.locator = locator := by
  unfold Mutation.isAssigned Mutation.changeOf at h
  by_cases htable : table = target
  · rw [if_pos htable] at h
    refine ⟨htable, ?_⟩
    cases lowered <;> simp [Change.assigns, Change.locator] at h hlocator
    · rw [← hlocator, h]
    · rw [← hlocator, h.1]
    · rw [← hlocator, h]
  · rw [if_neg htable] at h
    simp at h

/-- The replaced child row of a self reference is the selected one. -/
theorem childReplaced_iff {stored : StoredRow} :
    Mutation.childReplaced target lowered constraint stored = true ↔
      constraint.parent = constraint.child ∧
        constraint.selfReferenceRequiresExistingParent = false ∧ constraint.child = target ∧
        lowered.isReplace = true ∧ lowered.locator = some stored.locator := by
  unfold Mutation.childReplaced Mutation.isReplaced Mutation.changeOf
  by_cases htable : constraint.child = target
  · simp [htable, and_assoc]
  · simp [htable]

/-- Keys are different where their bytes are. -/
theorem equal_eq_false_iff {left right : Option Key} :
    equal left right = false ↔ left.map Key.bytes ≠ right.map Key.bytes := by
  simp [equal]

/-- Without a change the key after is the key before. -/
theorem rowKeys_none {side : List ColumnOrdinal} {kinds : List ScalarKeyType} {stored : StoredRow}
    {key : Option Key} (h : (stored.keyValues side >>= Key.encode kinds) = .ok key) :
    Mutation.rowKeys side kinds none stored = .ok (key, some key) := by
  simp only [bind_ok_iff] at h
  obtain ⟨values, hvalues, hkey⟩ := h
  simp only [Mutation.rowKeys, Mutation.afterKey, bind_ok_iff, map_ok_iff, pure_ok_iff]
  exact ⟨values, hvalues, key, hkey, some key, ⟨key, hkey, rfl⟩, rfl⟩

/-- Without a change both keys of a row are the key it was read with. -/
theorem keys_of_rowKeys_none {side : List ColumnOrdinal} {kinds : List ScalarKeyType}
    {stored : StoredRow} {key : Option Key}
    (h : Mutation.rowKeys side kinds none stored = .ok (key, some key)) :
    Mutation.beforeOf side kinds none stored = key ∧
      Mutation.afterOf side kinds none stored = some key := by
  simp [Mutation.beforeOf, Mutation.afterOf, h, Except.toOption]

namespace Requested

variable (h : Requested database constraints target change lowered locator image selected)
  (hconstraint : constraint ∈ constraints)

include h hconstraint

/-- Both checks read the same keys of a parent. -/
theorem agrees_parent {stored : StoredRow} (hstored : stored ∈ (database constraint.parent).rows) :
    Agrees constraint.parentColumns constraint.parentKinds
      (Mutation.changeOf target lowered constraint.parent) stored
      (image constraint.parent stored) :=
  h.agrees constraint hconstraint _ _ (isSide_parent constraint) _ stored hstored

/-- Both checks read the same keys of a child. -/
theorem agrees_child {stored : StoredRow} (hstored : stored ∈ (database constraint.child).rows) :
    Agrees constraint.childColumns constraint.childKinds
      (Mutation.changeOf target lowered constraint.child) stored
      (image constraint.child stored) :=
  h.agrees constraint hconstraint _ _ (isSide_child constraint) _ stored hstored

/-- The keys the cascading path collects from the parents after the change. -/
theorem filterMap_parentKey (hsides : Mutation.SidesEncode database target lowered constraint) :
    (component database constraints image).filterMap (parentKeyOf constraint true) =
      (database constraint.parent).rows.filterMap fun stored =>
        (Mutation.parentAfter target lowered constraint stored).join := by
  rw [filterMap_component (parent_mem_tables hconstraint) fun other hother hne stored hstored => by
    rw [parentKeyOf, (h.identity other hother stored hstored).1, if_neg fun hand => hne hand.1]]
  refine List.filterMap_congr fun stored hstored => ?_
  obtain ⟨-, hafter⟩ := (h.agrees_parent hconstraint hstored).spec (hsides.1 stored hstored)
  unfold parentKeyOf Mutation.parentAfter
  rw [(h.identity _ (parent_mem_tables hconstraint) stored hstored).1]
  rcases hafter with ⟨hdeleted, hnone⟩ | ⟨hdeleted, key, hsome, hkey⟩
  · simp [hdeleted, hnone]
  · simp [hdeleted, hsome, hkey, Except.toOption]

/-- The keys the cascading path collects from the parents as they were. -/
theorem filterMap_previousKey (hsides : Mutation.SidesEncode database target lowered constraint)
    (hself : constraint.selfReferenceRequiresExistingParent = true) :
    (component database constraints image).filterMap (previousKeyOf constraint true) =
      (database constraint.parent).rows.filterMap
        (Mutation.parentBefore target lowered constraint) := by
  rw [filterMap_component (parent_mem_tables hconstraint) fun other hother hne stored hstored => by
    rw [previousKeyOf, (h.identity other hother stored hstored).1, if_neg hne]]
  refine List.filterMap_congr fun stored hstored => ?_
  obtain ⟨hbefore, -⟩ := (h.agrees_parent hconstraint hstored).spec (hsides.1 stored hstored)
  unfold previousKeyOf previousKey Mutation.parentBefore
  rw [(h.identity _ (parent_mem_tables hconstraint) stored hstored).1]
  simp [hself, hbefore, Except.toOption]

omit hconstraint in
/-- A row of the component in a given table is the row of a stored one. -/
theorem exists_stored {table : PageNumber} {row : Row}
    (hrow : row ∈ component database constraints image) (htable : row.table = table) :
    ∃ stored ∈ (database table).rows, image table stored = row := by
  obtain ⟨other, hother, stored, hstored, rfl⟩ := mem_component.mp hrow
  rw [(h.identity other hother stored hstored).1] at htable
  exact ⟨stored, htable ▸ hstored, by rw [htable]⟩

/-- The validation of the state after the change. -/
theorem validateConstraint_iff (hsides : Mutation.SidesEncode database target lowered constraint)
    (hunique : Key.unique (Key.sort ((database constraint.parent).rows.filterMap fun stored =>
      (Mutation.parentAfter target lowered constraint stored).join)) = true) :
    validateConstraint (component database constraints image) true constraint = .ok () ↔
      Mutation.HoldsAfter database target lowered constraint := by
  have hparents := h.filterMap_parentKey hconstraint hsides
  have hprevious := h.filterMap_previousKey hconstraint hsides
  have hencodes : ∀ row ∈ component database constraints image,
      ParentEncodes constraint true row := by
    intro row hrow htable
    obtain ⟨stored, hstored, rfl⟩ := h.exists_stored hrow htable
    obtain ⟨hbefore, hafter⟩ := (h.agrees_parent hconstraint hstored).spec (hsides.1 stored hstored)
    refine ⟨?_, fun hkept => ?_⟩
    · unfold previousKey
      split
      · exact ⟨_, hbefore⟩
      · exact ⟨_, rfl⟩
    · rcases hafter with ⟨hdeleted, -⟩ | ⟨-, key, -, hkey⟩
      · exact absurd ⟨rfl, hdeleted⟩ hkept
      · exact ⟨key, hkey⟩
  rw [validateConstraint_ok_iff, hparents]
  constructor
  · rintro ⟨-, -, hchildren⟩ stored hstored key hkey
    -- a child that is kept has the same key in both checks
    have hspec := (h.agrees_child hconstraint hstored).spec (hsides.2 stored hstored)
    have hmem : image constraint.child stored ∈ component database constraints image :=
      mem_component.mpr ⟨_, child_mem_tables hconstraint, stored, hstored, rfl⟩
    have htable := (h.identity _ (child_mem_tables hconstraint) stored hstored).1
    rcases hspec.2 with ⟨-, hnone⟩ | ⟨hkept, after, hsome, hafter⟩
    · rw [Mutation.childAfter, hnone] at hkey
      cases hkey
    · rw [Mutation.childAfter, hsome] at hkey
      cases hkey
      obtain ⟨found, hfound, hholds⟩ := hchildren _ hmem htable (by simp [hkept])
      rw [hafter] at hfound
      cases hfound
      obtain ⟨⟨parent, hparent, hbytes⟩, hself⟩ := hholds key rfl
      rw [hparents] at hparent
      obtain ⟨p, hp, hjoin⟩ := List.mem_filterMap.mp hparent
      refine ⟨⟨p, hp, parent, Option.join_eq_some_iff.mp hjoin, hbytes⟩, fun hexisting => ?_⟩
      obtain ⟨held, hheld, hbytes⟩ := hself rfl hexisting
      rw [hprevious hexisting] at hheld
      obtain ⟨p, hp, hbefore⟩ := List.mem_filterMap.mp hheld
      exact ⟨p, hp, held, hbefore, hbytes⟩
  · intro hholds
    refine ⟨hencodes, hunique, fun row hrow htable hkept => ?_⟩
    obtain ⟨stored, hstored, rfl⟩ := h.exists_stored hrow htable
    have hspec := (h.agrees_child hconstraint hstored).spec (hsides.2 stored hstored)
    rcases hspec.2 with ⟨hdeleted, -⟩ | ⟨-, after, hsome, hafter⟩
    · exact absurd ⟨rfl, hdeleted⟩ hkept
    · refine ⟨after, hafter, ?_⟩
      rintro key rfl
      obtain ⟨⟨p, hp, held, hheld, hbytes⟩, hself⟩ := hholds stored hstored key hsome
      refine ⟨⟨held, ?_, hbytes⟩, fun _ hexisting => ?_⟩
      · rw [hparents]
        exact List.mem_filterMap.mpr ⟨p, hp, Option.join_eq_some_iff.mpr hheld⟩
      · obtain ⟨p, hp, held, hheld, hbytes⟩ := hself hexisting
        refine ⟨held, ?_, hbytes⟩
        rw [hprevious hexisting]
        exact List.mem_filterMap.mpr ⟨p, hp, hheld⟩

/-- Only the selected row is assigned, and what happens to it is not propagated. -/
theorem restricts_iff (hlocator : lowered.locator = some locator)
    (hcascade : constraint.cascades change.isDelete = false) {stored : StoredRow}
    (hstored : stored ∈ (database constraint.parent).rows) :
    Restricts constraint (image constraint.parent stored) ↔
      Mutation.parentAssigned target lowered constraint stored = true := by
  have hassigned := (h.agrees_parent hconstraint hstored).assigned
  have htable := (h.identity _ (parent_mem_tables hconstraint) stored hstored).1
  rw [Mutation.parentAssigned, hassigned, Restricts]
  refine ⟨fun hr => hr.2.1, fun ha => ⟨htable, ha, ?_⟩⟩
  rw [← hassigned] at ha
  obtain ⟨hparent, hsel⟩ := selected_of_assigned hlocator ha
  have hdeleted := h.deleted stored (hparent ▸ hstored) hsel
  rw [← hparent] at hdeleted
  rw [hdeleted]
  exact hcascade

/-- The guards look at a child exactly when the restricting check does. -/
theorem guarded_iff (hlocator : lowered.locator = some locator)
    (hreplace : lowered.isReplace = change.isReplace) {parent child : StoredRow} {i j : ℕ}
    (hparent : parent ∈ (database constraint.parent).rows)
    (hassigned : Mutation.parentAssigned target lowered constraint parent = true)
    (hi : (image constraint.parent parent, i) ∈ (component database constraints image).zipIdx)
    (hchild : child ∈ (database constraint.child).rows)
    (hj : (image constraint.child child, j) ∈ (component database constraints image).zipIdx) :
    Guarded constraint selected i change (image constraint.child child, j) ↔
      (image constraint.child child).deleted = false ∧
        Mutation.childReplaced target lowered constraint child = false := by
  obtain ⟨htarget, hsel⟩ := selected_of_assigned hlocator hassigned
  have hidp := h.identity _ (parent_mem_tables hconstraint) parent hparent
  have hidc := h.identity _ (child_mem_tables hconstraint) child hchild
  -- the parent is the selected row, since its key is assigned
  have hpos : i = selected := (h.position _ i hi).mp ⟨hidp.1.trans htarget, hidp.2.trans hsel⟩
  have hposc := h.position _ j hj
  rw [hidc.1, hidc.2] at hposc
  unfold Guarded
  rw [← Bool.not_eq_true (Mutation.childReplaced _ _ _ _), childReplaced_iff, hreplace, hlocator,
    htarget]
  simp only [hidc.1, true_and, hpos, ← hposc, Option.some.injEq]
  refine and_congr_right fun _ => not_congr ?_
  constructor
  · rintro ⟨⟨hc, hl⟩, hr, hs⟩
    exact ⟨hc.symm, hs, hc, hr, hl.symm⟩
  · rintro ⟨-, hs, hc, hr, hl⟩
    exact ⟨⟨hc, hl.symm⟩, hr, hs⟩

/-- The guards of one constraint. -/
theorem guards_iff (hlocator : lowered.locator = some locator)
    (hreplace : lowered.isReplace = change.isReplace)
    (hcascade : constraint.cascades change.isDelete = false)
    (hsides : Mutation.SidesEncode database target lowered constraint) :
    (∀ parent ∈ (component database constraints image).zipIdx, Restricts constraint parent.1 →
        ∃ key, parent.1.key constraint.parentColumns constraint.parentKinds false = .ok key ∧
          ∀ child ∈ (component database constraints image).zipIdx,
            Guarded constraint selected parent.2 change child →
            ∃ after, child.1.key constraint.childColumns constraint.childKinds true = .ok after ∧
              equal key after = false) ↔
      Mutation.NothingOrphaned database target lowered constraint := by
  -- every stored row has a position among the loaded ones
  have hindex : ∀ table ∈ tables constraints, ∀ stored ∈ (database table).rows,
      ∃ i, (image table stored, i) ∈ (component database constraints image).zipIdx := by
    intro table htable stored hstored
    obtain ⟨i, hi⟩ := List.mem_iff_getElem?.mp
      (mem_component.mpr ⟨table, htable, stored, hstored, rfl⟩ :
        image table stored ∈ component database constraints image)
    exact ⟨i, List.mk_mem_zipIdx_iff_getElem?.mpr hi⟩
  constructor
  · intro hguards parent hparent hassigned child hchild hreplaced after hafter
    obtain ⟨i, hi⟩ := hindex _ (parent_mem_tables hconstraint) parent hparent
    obtain ⟨j, hj⟩ := hindex _ (child_mem_tables hconstraint) child hchild
    obtain ⟨key, hkey, hothers⟩ := hguards _ hi
      ((h.restricts_iff hconstraint hlocator hcascade hparent).mpr hassigned)
    have hparentSpec := (h.agrees_parent hconstraint hparent).spec (hsides.1 parent hparent)
    have hchildSpec := (h.agrees_child hconstraint hchild).spec (hsides.2 child hchild)
    rw [Mutation.childAfter] at hafter
    rcases hchildSpec.2 with ⟨-, hnone⟩ | ⟨hkept, found, hsome, hfound⟩
    · rw [hnone] at hafter
      cases hafter
    · rw [hsome] at hafter
      cases hafter
      obtain ⟨found', hfound', hne⟩ := hothers _ hj
        ((h.guarded_iff hconstraint hlocator hreplace hparent hassigned hi hchild hj).mpr
          ⟨hkept, hreplaced⟩)
      rw [hfound] at hfound'
      cases hfound'
      rw [hparentSpec.1] at hkey
      cases hkey
      exact equal_eq_false_iff.mp hne
  · rintro hnothing ⟨parent, i⟩ hi hrestricts
    obtain ⟨stored, hstored, rfl⟩ := h.exists_stored
      (List.mem_of_getElem? (List.mk_mem_zipIdx_iff_getElem?.mp hi)) hrestricts.1
    have hassigned := (h.restricts_iff hconstraint hlocator hcascade hstored).mp hrestricts
    have hparentSpec := (h.agrees_parent hconstraint hstored).spec (hsides.1 stored hstored)
    refine ⟨_, hparentSpec.1, ?_⟩
    rintro ⟨child, j⟩ hj hguarded
    obtain ⟨storedChild, hstoredChild, rfl⟩ := h.exists_stored
      (List.mem_of_getElem? (List.mk_mem_zipIdx_iff_getElem?.mp hj)) hguarded.1
    obtain ⟨hkept, hreplaced⟩ :=
      (h.guarded_iff hconstraint hlocator hreplace hstored hassigned hi hstoredChild hj).mp hguarded
    have hchildSpec := (h.agrees_child hconstraint hstoredChild).spec
      (hsides.2 storedChild hstoredChild)
    rcases hchildSpec.2 with ⟨hdeleted, -⟩ | ⟨-, after, hsome, hafter⟩
    · rw [hkept] at hdeleted
      cases hdeleted
    · exact ⟨after, hafter, equal_eq_false_iff.mpr
        (hnothing stored hstored hassigned storedChild hstoredChild hreplaced after hsome)⟩

/-- Both paths read the same key of a row before the change. -/
theorem key_before {image₀ : PageNumber → StoredRow → Row}
    (hloaded : IsLoaded database constraints image₀) {table : PageNumber}
    {side : List ColumnOrdinal} (hside : IsSide constraint table side)
    (kinds : List ScalarKeyType) {stored : StoredRow} (hstored : stored ∈ (database table).rows) :
    (image table stored).key side kinds false = (image₀ table stored).key side kinds false := by
  obtain ⟨columns, hsub, hsnap⟩ := hloaded.side hconstraint hside
  have hloadedAgrees : Agrees side kinds none stored (image₀ table stored) :=
    agrees_other (hsnap stored hstored) hsub hside.length_le fun c hc => by cases hc
  rw [hloadedAgrees.before,
    (h.agrees constraint hconstraint table side hside kinds stored hstored).before]

/-- The validation before the change is the one the restricting check repeats. -/
theorem holdsBefore_of_validate {image₀ : PageNumber → StoredRow → Row}
    (hloaded : IsLoaded database constraints image₀)
    (hbefore : validate (component database constraints image₀) constraints false = .ok ())
    (hsides : Mutation.SidesEncode database target lowered constraint) :
    Mutation.HoldsBefore database target lowered constraint := by
  obtain ⟨-, hunique, hchildren⟩ :=
    validateConstraint_ok_iff.mp (forM_ok_iff.mp hbefore constraint hconstraint)
  -- the keys of the parents are those the validation has collected
  have hparents : (component database constraints image₀).filterMap
      (parentKeyOf constraint false) = (database constraint.parent).rows.filterMap
        (Mutation.parentBefore target lowered constraint) := by
    rw [filterMap_component (parent_mem_tables hconstraint) fun other hother hne stored hstored =>
      by rw [parentKeyOf, (hloaded.identity hother hstored).1, if_neg fun hand => hne hand.1]]
    refine List.filterMap_congr fun stored hstored => ?_
    obtain ⟨hkey, -⟩ := (h.agrees_parent hconstraint hstored).spec (hsides.1 stored hstored)
    rw [h.key_before hconstraint hloaded (isSide_parent constraint) _ hstored] at hkey
    simp [parentKeyOf, (hloaded.identity (parent_mem_tables hconstraint) hstored).1, hkey,
      Except.toOption, Mutation.parentBefore]
  rw [hparents] at hunique
  refine ⟨hunique, fun stored hstored key hkey => ?_⟩
  have hmem : image₀ constraint.child stored ∈ component database constraints image₀ :=
    mem_component.mpr ⟨_, child_mem_tables hconstraint, stored, hstored, rfl⟩
  obtain ⟨found, hfound, hheld⟩ := hchildren _ hmem
    (hloaded.identity (child_mem_tables hconstraint) hstored).1 (by simp)
  obtain ⟨hbeforeKey, -⟩ := (h.agrees_child hconstraint hstored).spec (hsides.2 stored hstored)
  rw [h.key_before hconstraint hloaded (isSide_child constraint) _ hstored, hfound,
    Except.ok.injEq] at hbeforeKey
  rw [Mutation.childBefore, ← hbeforeKey] at hkey
  obtain ⟨⟨held, hheld, hbytes⟩, -⟩ := hheld key hkey
  rw [hparents] at hheld
  obtain ⟨parent, hparent, hheld⟩ := List.mem_filterMap.mp hheld
  exact ⟨parent, hparent, held, hheld, hbytes⟩

/-- The keys before the change encode. -/
theorem exists_before {image₀ : PageNumber → StoredRow → Row}
    (hloaded : IsLoaded database constraints image₀)
    (hbefore : validate (component database constraints image₀) constraints false = .ok ()) :
    (∀ stored ∈ (database constraint.parent).rows, ∃ key,
      (image constraint.parent stored).key constraint.parentColumns constraint.parentKinds false =
        .ok key) ∧
    ∀ stored ∈ (database constraint.child).rows, ∃ key,
      (image constraint.child stored).key constraint.childColumns constraint.childKinds false =
        .ok key := by
  have hencodes := validate_before hbefore constraint hconstraint
  constructor
  · intro stored hstored
    rw [h.key_before hconstraint hloaded (isSide_parent constraint) _ hstored]
    exact (hencodes _ (mem_component.mpr ⟨_, parent_mem_tables hconstraint, stored, hstored,
      rfl⟩)).1 (hloaded.identity (parent_mem_tables hconstraint) hstored).1
  · intro stored hstored
    rw [h.key_before hconstraint hloaded (isSide_child constraint) _ hstored]
    exact (hencodes _ (mem_component.mpr ⟨_, child_mem_tables hconstraint, stored, hstored,
      rfl⟩)).2 (hloaded.identity (child_mem_tables hconstraint) hstored).1

/-- An accepted plan encodes every key the restricting check reads. -/
theorem sidesEncode_of_validate {image₀ : PageNumber → StoredRow → Row}
    (hloaded : IsLoaded database constraints image₀)
    (hbefore : validate (component database constraints image₀) constraints false = .ok ())
    (hafter : validateConstraint (component database constraints image) true constraint = .ok ()) :
    Mutation.SidesEncode database target lowered constraint := by
  obtain ⟨hparents, -, hchildren⟩ := validateConstraint_ok_iff.mp hafter
  obtain ⟨hparentBefore, hchildBefore⟩ := h.exists_before hconstraint hloaded hbefore
  refine ⟨fun stored hstored => ?_, fun stored hstored => ?_⟩
  · refine (h.agrees_parent hconstraint hstored).exists_keys (hparentBefore stored hstored)
      fun hkept => ?_
    exact (hparents _ (mem_component.mpr ⟨_, parent_mem_tables hconstraint, stored, hstored, rfl⟩)
      (h.identity _ (parent_mem_tables hconstraint) stored hstored).1).2 (by simp [hkept])
  · refine (h.agrees_child hconstraint hstored).exists_keys (hchildBefore stored hstored)
      fun hkept => ?_
    obtain ⟨key, hkey, -⟩ := hchildren _ (mem_component.mpr ⟨_, child_mem_tables hconstraint,
      stored, hstored, rfl⟩) (h.identity _ (child_mem_tables hconstraint) stored hstored).1
      (by simp [hkept])
    exact ⟨key, hkey⟩

/-- A constraint between other tables holds after the change as it did before. -/
theorem unrelated {image₀ : PageNumber → StoredRow → Row}
    (hloaded : IsLoaded database constraints image₀)
    (hbefore : validate (component database constraints image₀) constraints false = .ok ())
    (hparent : constraint.parent ≠ target) (hchild : constraint.child ≠ target) :
    Mutation.SidesEncode database target lowered constraint ∧
      Mutation.NothingOrphaned database target lowered constraint ∧
      Mutation.HoldsAfter database target lowered constraint := by
  have hparentChange : Mutation.changeOf target lowered constraint.parent = none := if_neg hparent
  have hchildChange : Mutation.changeOf target lowered constraint.child = none := if_neg hchild
  obtain ⟨hparentBefore, hchildBefore⟩ := h.exists_before hconstraint hloaded hbefore
  have hparents : ∀ stored ∈ (database constraint.parent).rows, ∃ key,
      Mutation.rowKeys constraint.parentColumns constraint.parentKinds none stored =
        .ok (key, some key) := by
    intro stored hstored
    obtain ⟨key, hkey⟩ := hparentBefore stored hstored
    rw [(h.agrees_parent hconstraint hstored).before] at hkey
    exact ⟨key, rowKeys_none hkey⟩
  have hchildren : ∀ stored ∈ (database constraint.child).rows, ∃ key,
      Mutation.rowKeys constraint.childColumns constraint.childKinds none stored =
        .ok (key, some key) := by
    intro stored hstored
    obtain ⟨key, hkey⟩ := hchildBefore stored hstored
    rw [(h.agrees_child hconstraint hstored).before] at hkey
    exact ⟨key, rowKeys_none hkey⟩
  have hsides : Mutation.SidesEncode database target lowered constraint := by
    unfold Mutation.SidesEncode
    rw [hparentChange, hchildChange]
    refine ⟨fun stored hstored => ?_, fun stored hstored => ?_⟩
    · obtain ⟨key, hkey⟩ := hparents stored hstored
      exact ⟨_, hkey⟩
    · obtain ⟨key, hkey⟩ := hchildren stored hstored
      exact ⟨_, hkey⟩
  -- nothing of the constraint changes, and it held before
  obtain ⟨-, hheld⟩ := h.holdsBefore_of_validate hconstraint hloaded hbefore hsides
  refine ⟨hsides, fun stored _ hassigned => ?_, fun child hin key hkey => ?_⟩
  · rw [Mutation.parentAssigned, hparentChange] at hassigned
    cases hassigned
  · obtain ⟨found, hfound⟩ := hchildren child hin
    obtain ⟨hchildKey, hchildAfter⟩ := keys_of_rowKeys_none hfound
    rw [Mutation.childAfter, hchildChange, hchildAfter, Option.some.injEq] at hkey
    subst hkey
    obtain ⟨parent, hp, held, hheld, hbytes⟩ := hheld child hin key
      (by rw [Mutation.childBefore, hchildChange, hchildKey])
    obtain ⟨found, hfound⟩ := hparents parent hp
    obtain ⟨hparentKey, hparentAfter⟩ := keys_of_rowKeys_none hfound
    have hsame : found = some held := by
      rw [← hparentKey, ← hheld, Mutation.parentBefore, hparentChange]
    refine ⟨⟨parent, hp, held, ?_, hbytes⟩, fun _ => ⟨parent, hp, held, hheld, hbytes⟩⟩
    rw [Mutation.parentAfter, hparentChange, hparentAfter, hsame]

end Requested

end Constraint

/-! ## The whole paths -/

/-- A change that nothing propagates leaves the rows as the request made them. -/
theorem propagate_restricted {constraints : List Constraint} {rows : List Row} {selected : ℕ}
    (h : ∀ row, rows[selected]? = some row → ∀ constraint ∈ constraints,
      constraint.cascades row.deleted = false) (fuel : ℕ) :
    propagate constraints (fuel + 1) rows selected = .ok (some rows) := by
  -- no constraint hands the change on
  have hstep : ∀ rest : List Constraint, rest ⊆ constraints →
      rest.foldlM (propagateConstraint selected) (rows, []) = .ok (rows, []) := by
    intro rest hrest
    induction rest with
    | nil => rfl
    | cons constraint rest ih =>
      have hconstraint : propagateConstraint selected (rows, []) constraint = .ok (rows, []) := by
        rcases hrow : rows[selected]? with _ | row
        · simp only [propagateConstraint, hrow]
          rfl
        · have hcascade := h row hrow constraint (hrest List.mem_cons_self)
          simp only [propagateConstraint, hrow, hcascade]
          rw [if_pos (.inr (.inr (by simp)))]
          rfl
      rw [List.foldlM_cons, hconstraint]
      exact ih fun c hc => hrest (List.mem_cons_of_mem constraint hc)
  rw [propagate, Worklist.run_succ_cons, propagateStep, hstep constraints (List.Subset.refl _)]
  simp [bind, Except.bind]

/-- The restricting check finds a scalar value for every key column it reads. -/
theorem exists_value_of_rowKeys {side : List ColumnOrdinal} {kinds : List ScalarKeyType}
    {change : Change} {stored : StoredRow} {before : ColumnOrdinal → RowValue}
    (hle : side.length ≤ maxFields)
    (hstored : ∀ column ∈ side, stored.readColumn column = .ok (before column))
    (hdelete : change ≠ .delete stored.locator)
    (h : ∃ pair, Mutation.rowKeys side kinds (some change) stored = .ok pair) :
    ∀ column ∈ side, ∃ value,
      change.existingValue stored.locator column (before column) = .ok value ∧
        value.isScalar = true := by
  obtain ⟨pair, hpair⟩ := h
  simp only [Mutation.rowKeys, bind_ok_iff, keyValues_eq hle hstored, Except.ok.injEq,
    exists_eq_left', Mutation.afterKey, Change.existing, if_neg hdelete] at hpair
  obtain ⟨-, -, -, ⟨values, hvalues, key, hkey, -⟩, -⟩ := hpair
  have : Nonempty RowValue := ⟨.null⟩
  obtain ⟨value, rfl, hvalue⟩ := exists_eq_map_of_mapM_ok hvalues
  intro column hmem
  have hpair : (column, before column) ∈ side.zip (side.map before) := by
    obtain ⟨i, hi⟩ := List.mem_iff_getElem?.mp hmem
    refine List.mem_iff_getElem?.mpr ⟨i, ?_⟩
    rw [List.getElem?_zip_eq_some]
    exact ⟨hi, by rw [List.getElem?_map, hi, Option.map_some]⟩
  exact ⟨_, hvalue _ hpair,
    Key.isScalar_of_encode_ok hkey _ (List.mem_map_of_mem hpair)⟩

/-- A change the restricting check accepts can be assigned to its row. -/
theorem exists_assignRow {database : Database} {constraints : List Constraint}
    {image : PageNumber → StoredRow → Row} (hloaded : IsLoaded database constraints image)
    {target : PageNumber} (htarget : target ∈ tables constraints) {change : Change}
    {stored : StoredRow} (hstored : stored ∈ (database target).rows)
    (hlocator : change.locator = some stored.locator) {autoIncrement : ColumnOrdinal → Bool}
    (hcheck : Mutation.check database target constraints
      (change.lowered autoIncrement stored) = .ok ()) :
    ∃ row, assignRow autoIncrement change (image target stored) = .ok row := by
  by_cases hdelete : change = .delete stored.locator
  · subst hdelete
    exact ⟨_, assignRow_delete autoIncrement stored.locator _⟩
  · obtain ⟨columns, hcolumns, hsnapshot⟩ := hloaded.snapshot target htarget
    have hsnap := hsnapshot stored hstored
    -- the check has encoded the key of every side of the table
    have hsideEncode : ∀ constraint ∈ constraints, ∀ side, IsSide constraint target side →
        ∃ kinds, ∃ pair, Mutation.rowKeys side kinds
          (some (change.lowered autoIncrement stored)) stored = .ok pair := by
      intro constraint hconstraint side hside
      have hrelevant : constraint ∈ Mutation.relevant target constraints := by
        refine List.mem_filter.mpr ⟨hconstraint, ?_⟩
        rcases hside with ⟨rfl, -⟩ | ⟨rfl, -⟩ <;> simp
      obtain ⟨hsides, -⟩ := (Mutation.checkConstraint_ok_iff
        (by rw [locator_lowered, hlocator]; rfl)).mp
        (forM_ok_iff.mp hcheck constraint hrelevant)
      rcases hside with ⟨rfl, rfl⟩ | ⟨rfl, rfl⟩
      · have hpair := hsides.1 stored hstored
        rw [Mutation.changeOf, if_pos rfl] at hpair
        exact ⟨_, hpair⟩
      · have hpair := hsides.2 stored hstored
        rw [Mutation.changeOf, if_pos rfl] at hpair
        exact ⟨_, hpair⟩
    -- so every key column has a value that can be assigned
    have hfields : ∃ fields, (image target stored).fields.mapM
        (assignRequest autoIncrement change) = .ok fields := by
      refine exists_mapM_ok_iff.mpr fun field hfield => ?_
      have hmem : field.column ∈ columns := hsnap.columns_eq ▸ List.mem_map_of_mem hfield
      obtain ⟨constraint, hconstraint, side, hside, hin⟩ := (mem_keyColumns hcolumns).mp hmem
      obtain ⟨kinds, hpair⟩ := hsideEncode constraint hconstraint side hside
      obtain ⟨before, hbefore⟩ := hsnap.exists_before
      have hsub : side ⊆ columns := fun c hc =>
        (mem_keyColumns hcolumns).mpr ⟨constraint, hconstraint, side, hside, hc⟩
      obtain ⟨value, hvalue, hscalar⟩ := exists_value_of_rowKeys hside.length_le
        (fun c hc => (hbefore c (hsub hc)).1) (mt lowered_eq_delete_iff.mp hdelete) hpair _ hin
      have hfieldBefore := hsnap.before_eq field hfield
      rw [(hbefore _ hmem).1, Except.ok.injEq] at hfieldBefore
      rw [hfieldBefore] at hvalue
      exact exists_assignRequest (hsnap.before_eq field hfield) hlocator hvalue hscalar
    obtain ⟨fields, hfields⟩ := hfields
    simp only [assignRow, bind_ok_iff, pure_ok_iff]
    exact ⟨_, fields, hfields, rfl⟩

/-- No other row was assigned, so no rules are asked. -/
theorem Requested.refusesRules_ok {database : Database} {constraints : List Constraint}
    {target : PageNumber} {change lowered : Change} {locator : RowLocator}
    {image : PageNumber → StoredRow → Row} {selected : ℕ}
    (h : Requested database constraints target change lowered locator image selected)
    (rules : PageNumber → Except WriteError Unit) (constraint : Constraint) :
    refusesRules rules (component database constraints image) selected constraint = .ok () := by
  rw [refusesRules, if_neg]
  rw [List.any_eq_true]
  rintro ⟨⟨row, i⟩, hmem, hrow⟩
  simp only [Bool.and_eq_true, decide_eq_true_eq, List.any_eq_true] at hrow
  obtain ⟨⟨⟨hne, -⟩, -⟩, field, hfield, hassigned⟩ := hrow
  obtain ⟨table, htable, stored, hstored, rfl⟩ := mem_component.mp
    (List.mem_of_getElem? (List.mk_mem_zipIdx_iff_getElem?.mp hmem))
  have hother : ¬(table = target ∧ stored.locator = locator) := by
    obtain ⟨htableEq, hlocatorEq⟩ := h.identity table htable stored hstored
    rw [← hlocatorEq]
    rintro ⟨htarget, hsel⟩
    exact hne ((h.position _ i hmem).mp ⟨htableEq.trans htarget, hsel⟩)
  rw [h.others table htable stored hstored hother field hfield] at hassigned
  cases hassigned

/-- What `prepare` decides on one constraint is what the restricting check decides. -/
theorem Requested.constraint_agrees {database : Database} {constraints : List Constraint}
    {target : PageNumber} {change lowered : Change} {locator : RowLocator}
    {image image₀ : PageNumber → StoredRow → Row} {selected : ℕ} {constraint : Constraint}
    (h : Requested database constraints target change lowered locator image selected)
    (hloaded : IsLoaded database constraints image₀)
    (hbefore : validate (component database constraints image₀) constraints false = .ok ())
    (hconstraint : constraint ∈ constraints) (hlocator : lowered.locator = some locator)
    (hreplace : lowered.isReplace = change.isReplace)
    (hcascade : constraint.cascades change.isDelete = false)
    (hunique : ∀ keys, Mutation.parentKeys database target lowered constraint = .ok keys →
      Key.unique (Key.sort keys.after) = true) :
    (guards (component database constraints image) [constraint] selected change = .ok () ∧
      validateConstraint (component database constraints image) true constraint = .ok ()) ↔
    (constraint ∈ Mutation.relevant target constraints →
      Mutation.checkConstraint database target lowered constraint = .ok ()) := by
  have hsome : lowered.locator.isSome = true := by rw [hlocator]; rfl
  have huniqueAfter : Mutation.SidesEncode database target lowered constraint →
      Key.unique (Key.sort ((database constraint.parent).rows.filterMap fun stored =>
        (Mutation.parentAfter target lowered constraint stored).join)) = true := by
    intro hsides
    have hkeys := hunique _ ((Mutation.parentKeys_ok_iff hsome).mpr ⟨hsides.1, rfl⟩)
    simpa [Mutation.collect, Mutation.isReplaced, Mutation.parentAfter] using hkeys
  rw [guards_ok_iff, Mutation.checkConstraint_ok_iff hsome]
  simp only [List.mem_singleton, forall_eq]
  constructor
  · rintro ⟨hguards, hafter⟩ -
    have hsides := h.sidesEncode_of_validate hconstraint hloaded hbefore hafter
    exact ⟨hsides, h.holdsBefore_of_validate hconstraint hloaded hbefore hsides,
      (h.guards_iff hconstraint hlocator hreplace hcascade hsides).mp hguards,
      (h.validateConstraint_iff hconstraint hsides (huniqueAfter hsides)).mp hafter⟩
  · intro hcheck
    -- a constraint that the check passes over is of other tables
    have haccepted : Mutation.SidesEncode database target lowered constraint ∧
        Mutation.NothingOrphaned database target lowered constraint ∧
        Mutation.HoldsAfter database target lowered constraint := by
      by_cases hrelevant : constraint ∈ Mutation.relevant target constraints
      · obtain ⟨hsides, -, hnothing, hholds⟩ := hcheck hrelevant
        exact ⟨hsides, hnothing, hholds⟩
      · have hother : constraint.parent ≠ target ∧ constraint.child ≠ target := by
          simpa [Mutation.relevant, hconstraint] using hrelevant
        exact h.unrelated hconstraint hloaded hbefore hother.1 hother.2
    obtain ⟨hsides, hnothing, hholds⟩ := haccepted
    exact ⟨(h.guards_iff hconstraint hlocator hreplace hcascade hsides).mpr hnothing,
      (h.validateConstraint_iff hconstraint hsides (huniqueAfter hsides)).mpr hholds⟩

/-- What both paths decide once the request is assigned to its row. -/
theorem exists_selected {database : Database} {constraints : List Constraint}
    {target : PageNumber} {change : Change} {stored : StoredRow}
    {image : PageNumber → StoredRow → Row} {autoIncrement : ColumnOrdinal → Bool} {row : Row}
    (rules : PageNumber → Except WriteError Unit) (hloaded : IsLoaded database constraints image)
    (hbefore : validate (component database constraints image) constraints false = .ok ())
    (htarget : target ∈ tables constraints) (hstored : stored ∈ (database target).rows)
    (hlocator : change.locator = some stored.locator)
    (hcascade : ∀ constraint ∈ constraints, constraint.cascades change.isDelete = false)
    (hunique : ∀ constraint ∈ constraints, ∀ keys, Mutation.parentKeys database target
      (change.lowered autoIncrement stored) constraint = .ok keys →
      Key.unique (Key.sort keys.after) = true)
    (hassign : assignRow autoIncrement change (image target stored) = .ok row) :
    ∃ start selected,
      select autoIncrement target change (component database constraints image) =
        .ok (start, selected) ∧
      (∀ fuel, propagate constraints (fuel + 1) start selected = .ok (some start)) ∧
      (∀ constraint, refusesRules rules start selected constraint = .ok ()) ∧
      (guards start constraints selected change = .ok () ∧
          validate start constraints true = .ok () ↔
        Mutation.check database target constraints (change.lowered autoIncrement stored) =
          .ok ()) := by
  obtain ⟨selected, hselect, hrequested⟩ :=
    select_component hloaded htarget hstored hlocator hassign
  refine ⟨_, selected, hselect, fun fuel => propagate_restricted (fun found hfound constraint
    hconstraint => ?_) fuel, hrequested.refusesRules_ok rules, ?_⟩
  · -- the row at the selected position is the requested one
    have hmem := List.mk_mem_zipIdx_iff_getElem?.mpr hfound
    obtain ⟨htableEq, hlocatorEq⟩ := (hrequested.position found selected hmem).mpr rfl
    obtain ⟨other, hother, rfl⟩ := hrequested.exists_stored (List.mem_of_getElem? hfound) htableEq
    rw [(hrequested.identity target htarget other hother).2] at hlocatorEq
    rw [hrequested.deleted other hother hlocatorEq]
    exact hcascade constraint hconstraint
  · have hagree := fun constraint hconstraint => hrequested.constraint_agrees hloaded hbefore
      hconstraint (locator_lowered.trans hlocator) isReplace_lowered
      (hcascade constraint hconstraint) (hunique constraint hconstraint)
    have hguards : guards (component database constraints
          (requestedImage image target stored.locator row)) constraints selected change = .ok () ↔
        ∀ constraint ∈ constraints, guards (component database constraints
          (requestedImage image target stored.locator row)) [constraint] selected change =
            .ok () := by
      simp only [guards_ok_iff, List.mem_singleton, forall_eq]
    simp only [hguards, validate, Mutation.check, forM_ok_iff]
    constructor
    · rintro ⟨hg, hv⟩ constraint hrelevant
      have hconstraint : constraint ∈ constraints := (List.mem_filter.mp hrelevant).1
      exact (hagree constraint hconstraint).mp
        ⟨hg constraint hconstraint, hv constraint hconstraint⟩
        hrelevant
    · intro hcheck
      have hboth := fun constraint hconstraint =>
        (hagree constraint hconstraint).mpr (hcheck constraint)
      exact ⟨fun constraint hconstraint => (hboth constraint hconstraint).1,
        fun constraint hconstraint => (hboth constraint hconstraint).2⟩

/-- The cascading and the restricting path agree when nothing cascades. For rows that satisfy the
constraints of the component, and a change of one row whose kind no constraint cascades and that
keeps the non-null parent keys unique, the worklist, the guards and the validation accept exactly
when the restricting check accepts. -/
theorem prepare_iff_check {database : Database} {constraints : List Constraint}
    {target : PageNumber} {change : Change} {stored : StoredRow} {rows : List Row}
    {autoIncrement : ColumnOrdinal → Bool} {rules : PageNumber → Except WriteError Unit}
    (hload : load database constraints = .ok rows)
    (hbefore : validate rows constraints false = .ok ())
    (htarget : target ∈ tables constraints) (hstored : stored ∈ (database target).rows)
    (hlocator : change.locator = some stored.locator)
    (hcascade : ∀ constraint ∈ constraints, constraint.cascades change.isDelete = false)
    (hunique : ∀ constraint ∈ constraints, ∀ keys, Mutation.parentKeys database target
      (change.lowered autoIncrement stored) constraint = .ok keys →
      Key.unique (Key.sort keys.after) = true) :
    (∃ fuel plan, prepare rules autoIncrement target constraints fuel rows change =
      .ok (some plan)) ↔
    Mutation.check database target constraints (change.lowered autoIncrement stored) = .ok () := by
  obtain ⟨image, rfl, hloaded⟩ := load_ok hload
  constructor
  · rintro ⟨fuel, plan, hprepare⟩
    obtain ⟨-, start, selected, hselect, hrun, -, hguards, hafter⟩ :=
      prepare_ok_some_iff.mp hprepare
    obtain ⟨row, hassign⟩ := assigned_of_select hloaded htarget hstored hlocator hselect
    obtain ⟨start', selected', hselect', hend, -, hagree⟩ := exists_selected rules hloaded
      hbefore htarget hstored hlocator hcascade hunique hassign
    rw [hselect] at hselect'
    cases hselect'
    -- the run ends at the first row
    obtain rfl := propagate_unique hrun (hend 0)
    exact hagree.mp ⟨hguards, hafter⟩
  · intro hcheck
    obtain ⟨row, hassign⟩ := exists_assignRow hloaded htarget hstored hlocator hcheck
    obtain ⟨start, selected, hselect, hend, hrules, hagree⟩ := exists_selected rules hloaded
      hbefore htarget hstored hlocator hcascade hunique hassign
    obtain ⟨hguards, hafter⟩ := hagree.mpr hcheck
    exact ⟨1, start, prepare_ok_some_iff.mpr ⟨hbefore, start, selected, hselect, hend 0,
      fun constraint _ => hrules constraint, hguards, hafter⟩⟩

/-- Customers 1 and 2 (table 10) and an order of the first one (table 20). -/
def storedCustomers : Database := fun table =>
  if table = 10 then
    { rows := [{ locator := { page := 11, slot := 0 }, values := [.long 1] },
        { locator := { page := 11, slot := 1 }, values := [.long 2] }]
      locators_nodup := by decide }
  else if table = 20 then
    { rows := [{ locator := { page := 21, slot := 0 }, values := [.long 7, .long 1] }]
      locators_nodup := by decide }
  else { rows := [], locators_nodup := List.nodup_nil }

/-- Orders refer to customers, and changes are not handed down. -/
def storedCustomersConstraint : Constraint :=
  .ofLong { updates := false, deletes := false } 10 0 20 1

/-- The second customer, who has no orders. -/
def secondCustomer : StoredRow :=
  { locator := { page := 11, slot := 1 }, values := [.long 2] }

/-- The two paths agree on the deletion of the second customer, and accept it. -/
theorem prepare_iff_check_storedCustomers :
    ∃ rows fuel plan, load storedCustomers [storedCustomersConstraint] = .ok rows ∧
      prepare (fun _ => .ok ()) (fun _ => false) 10 [storedCustomersConstraint] fuel rows
        (.delete secondCustomer.locator) = .ok (some plan) := by
  have hmem : secondCustomer ∈ (storedCustomers 10).rows := by decide
  obtain ⟨rows, hload⟩ : ∃ rows, load storedCustomers [storedCustomersConstraint] = .ok rows :=
    exists_ok (by decide +kernel)
  obtain ⟨⟨⟩, hbefore⟩ : ∃ u, (load storedCustomers [storedCustomersConstraint] >>= fun rows =>
      validate rows [storedCustomersConstraint] false) = .ok u := exists_ok (by decide +kernel)
  rw [hload] at hbefore
  obtain ⟨⟨⟩, hcheck⟩ : ∃ u, Mutation.check storedCustomers 10 [storedCustomersConstraint]
      (.delete secondCustomer.locator) = .ok u := exists_ok (by decide +kernel)
  have hunique : ∀ constraint ∈ [storedCustomersConstraint], ∀ keys,
      Mutation.parentKeys storedCustomers 10 (.delete secondCustomer.locator) constraint =
        .ok keys → Key.unique (Key.sort keys.after) = true := by
    rw [List.forall_mem_singleton]
    exact forall_ok (p := fun keys : Mutation.Keys => Key.unique (Key.sort keys.after))
      (by decide +kernel)
  have hagree : (∃ fuel plan, prepare (fun _ => .ok ()) (fun _ => false) 10
      [storedCustomersConstraint] fuel rows (.delete secondCustomer.locator) = .ok (some plan)) ↔
      Mutation.check storedCustomers 10 [storedCustomersConstraint]
        (.delete secondCustomer.locator) = .ok () :=
    prepare_iff_check hload hbefore (by decide) hmem rfl (by decide) hunique
  obtain ⟨fuel, plan, hplan⟩ := hagree.mpr hcheck
  exact ⟨rows, fuel, plan, hload, hplan⟩

end Cascade

end Jet3
