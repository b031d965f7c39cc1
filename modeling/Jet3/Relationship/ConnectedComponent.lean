import Jet3.Relationship.Component

/-!
# The connected component of a table

What the scan collects is the connected component of its target: the enforced relationships reached
from it, each once. Where the records of a name agree, the component does not depend on the order of
the catalog.
-/

namespace Jet3.RelationshipCatalog

open Outcome

/-! ## Tables -/

/-- A definition knows its root. -/
theorem root_of_tableDefinition {database : DatabaseReader} {root : PageNumber}
    {definition : TableDefinition} (h : database.tableDefinition root = .ok definition) :
    definition.root = root := by
  simp only [DatabaseReader.tableDefinition, WriteError.ofDefinition_ok_iff, Jet3.tableDefinition,
    decodeDefinition, bind_ok_iff, exists_unit, pure_ok_iff] at h
  obtain ⟨_, _, _, ⟨_, _, _, _, _, _, _, _, _, _, _, _, _, _, _, _, rfl⟩, _, rfl⟩ := h
  rfl

/-- A table that is found by name is one of the file. -/
theorem table_ok {database : DatabaseReader} {name : List UInt8} {definition : TableDefinition}
    (h : table database name = .ok definition) :
    database.tableDefinition definition.root = .ok definition := by
  simp only [table, bind_ok_iff, exists_unit, pure_ok_iff] at h
  obtain ⟨_, _, _, _, root, _, found, hfound, _, rfl⟩ := h
  rwa [root_of_tableDefinition hfound]

/-- The tables of a resolved relationship are those stored at their roots. -/
theorem resolve_ok {database : DatabaseReader} {records : List Record} {constraint : Constraint}
    (h : resolve database records = .ok constraint) :
    database.tableDefinition constraint.parent.root = .ok constraint.parent ∧
      database.tableDefinition constraint.child.root = .ok constraint.child := by
  simp only [resolve, resolveTables, bind_ok_iff, exists_unit, pure_ok_iff] at h
  obtain ⟨_, _, parent, hparent, child, hchild, _, _, _, _, _, _, _, _, _, _, _, _, rfl⟩ := h
  exact ⟨table_ok hparent, table_ok hchild⟩

/-- What the checks of a table ask of it. -/
structure Inventoried (database : DatabaseReader) (constraints : List Constraint)
    (table : TableDefinition) : Prop where
  target : checkTarget table constraints = .ok ()
  incoming : incoming database table.root constraints = .ok ()

/-- A table is checked once. -/
theorem checkTable_ok_iff {database : DatabaseReader} {constraints : List Constraint}
    {checked result : List PageNumber} {table : TableDefinition} :
    checkTable database constraints checked table = .ok result ↔
      table.root ∈ checked ∧ result = checked ∨ table.root ∉ checked ∧
        Inventoried database constraints table ∧ result = checked ++ [table.root] := by
  unfold checkTable
  split
  · rename_i hmem
    rw [Except.ok.injEq, eq_comm]
    simp [hmem]
  · rename_i hmem
    simp only [bind_ok_iff, exists_unit, pure_ok_iff]
    constructor
    · rintro ⟨htarget, hincoming, rfl⟩
      exact .inr ⟨hmem, ⟨htarget, hincoming⟩, rfl⟩
    · rintro (⟨hchecked, -⟩ | ⟨-, hinventoried, rfl⟩)
      · exact absurd hchecked hmem
      · exact ⟨hinventoried.target, hinventoried.incoming, rfl⟩

/-- Every table is checked, where the tables of one root are one table. -/
theorem checkTables_ok_iff {database : DatabaseReader} {constraints : List Constraint}
    {tables : List TableDefinition} {checked : List PageNumber}
    (hroots : ∀ table ∈ tables, ∀ other ∈ tables, table.root = other.root → table = other) :
    (∃ result, tables.foldlM (checkTable database constraints) checked = .ok result) ↔
      ∀ table ∈ tables, table.root ∈ checked ∨ Inventoried database constraints table := by
  induction tables generalizing checked with
  | nil => simp [pure_ok_iff]
  | cons table rest ih =>
    have hrest : ∀ a ∈ rest, ∀ b ∈ rest, a.root = b.root → a = b := fun a ha b hb =>
      hroots a (List.mem_cons_of_mem _ ha) b (List.mem_cons_of_mem _ hb)
    rw [List.forall_mem_cons]
    simp only [List.foldlM_cons, bind_ok_iff, checkTable_ok_iff]
    constructor
    · rintro ⟨result, next, hstep, hfold⟩
      have hlater := (ih hrest).mp ⟨result, hfold⟩
      rcases hstep with ⟨hmem, rfl⟩ | ⟨-, hinventoried, rfl⟩
      · exact ⟨.inl hmem, hlater⟩
      · refine ⟨.inr hinventoried, fun other hother => ?_⟩
        rcases hlater other hother with hmem | hother'
        · rcases List.mem_append.mp hmem with hmem | hmem
          · exact .inl hmem
          · -- another table of the same root is this one
            have hequal := hroots other (List.mem_cons_of_mem _ hother) table List.mem_cons_self
              (List.mem_singleton.mp hmem)
            exact .inr (hequal ▸ hinventoried)
        · exact .inr hother'
    · rintro ⟨hfirst, hlater⟩
      by_cases hmem : table.root ∈ checked
      · obtain ⟨result, hfold⟩ := (ih hrest).mpr hlater
        exact ⟨result, checked, .inl ⟨hmem, rfl⟩, hfold⟩
      · obtain ⟨result, hfold⟩ := (@ih (checked ++ [table.root]) hrest).mpr
          fun other hother => (hlater other hother).imp_left (List.mem_append_left _)
        exact ⟨result, _, .inr ⟨hmem, hfirst.resolve_left hmem, rfl⟩, hfold⟩

/-- The endpoint tables of some relationships. -/
def endpointTables (constraints : List Constraint) : List TableDefinition :=
  constraints.flatMap fun constraint => [constraint.parent, constraint.child]

theorem mapM_ok_iff_forall₂ {α β ε : Type} {f : α → Except ε β} {l : List α} {l' : List β} :
    l.mapM f = .ok l' ↔ List.Forall₂ (fun a b => f a = .ok b) l l' := by
  refine ⟨forall₂_of_mapM_ok, fun h => ?_⟩
  induction h with
  | nil => rfl
  | cons hfirst _ ih =>
    rw [List.mapM_cons, hfirst, ih]
    rfl

/-- Every result comes from an item. -/
theorem exists_of_mem_mapM {α β ε : Type} {f : α → Except ε β} {l : List α} {l' : List β}
    (h : l.mapM f = .ok l') {b : β} (hb : b ∈ l') : ∃ a ∈ l, f a = .ok b := by
  have hforall := mapM_ok_iff_forall₂.mp h
  clear h
  induction hforall with
  | nil => cases hb
  | cons hfirst _ ih =>
    rcases List.mem_cons.mp hb with rfl | hb
    · exact ⟨_, List.mem_cons_self, hfirst⟩
    · obtain ⟨a, ha, hstep⟩ := ih hb
      exact ⟨a, List.mem_cons_of_mem _ ha, hstep⟩

/-- Every item has a result. -/
theorem exists_mem_of_mapM {α β ε : Type} {f : α → Except ε β} {l : List α} {l' : List β}
    (h : l.mapM f = .ok l') {a : α} (ha : a ∈ l) : ∃ b ∈ l', f a = .ok b := by
  have hforall := mapM_ok_iff_forall₂.mp h
  clear h
  induction hforall with
  | nil => cases ha
  | cons hfirst _ ih =>
    rcases List.mem_cons.mp ha with rfl | ha
    · exact ⟨_, List.mem_cons_self, hfirst⟩
    · obtain ⟨b, hb, hstep⟩ := ih ha
      exact ⟨b, List.mem_cons_of_mem _ hb, hstep⟩

/-- The endpoint tables of resolved relationships are those stored at their roots. -/
theorem endpointTables_stored {database : DatabaseReader} {relationships : List (List Record)}
    {constraints : List Constraint} (h : relationships.mapM (resolve database) = .ok constraints) :
    ∀ table ∈ endpointTables constraints, database.tableDefinition table.root = .ok table := by
  intro table htable
  obtain ⟨constraint, hconstraint, hmem⟩ := List.mem_flatMap.mp htable
  obtain ⟨records, -, hresolve⟩ := exists_of_mem_mapM h hconstraint
  obtain ⟨hparent, hchild⟩ := resolve_ok hresolve
  rcases List.mem_cons.mp hmem with rfl | hmem
  · exact hparent
  · rwa [List.mem_singleton.mp hmem]

/-! ## The relationships collected -/

/-- The names a record may have. -/
theorem checkNames_ok_iff {record : Record} : checkNames record = .ok () ↔
    record.name.length ≤ 63 ∧ ∀ name ∈ record.names, validateCatalogName name record.order =
      .ok () := by
  rw [checkNames, refuseIf_ok_iff, not_or, not_lt]
  refine and_congr_right fun _ => ?_
  rw [List.any_eq_true]
  push Not
  refine forall₂_congr fun name _ => ?_
  rcases validateCatalogName name record.order with error | _ <;> simp [Except.isOk, Except.toBool]

/-- The first record of an accepted group has a valid name. -/
theorem Accepted.head_name {group : List Record} (h : Accepted group) {first : Record}
    (hfirst : group.head? = some first) :
    validateCatalogName first.name first.order = .ok () := by
  have hperm := (ordered_ok_iff.mp h.orders).2.1
  have hmem := hperm.mem_iff.mpr (List.mem_of_head? hfirst)
  exact (checkNames_ok_iff.mp (h.names first hmem)).2 _ List.mem_cons_self

/-- A valid name equals itself. -/
theorem catalogNamesEqual_self {name : List UInt8} {order : SortOrder}
    (h : validateCatalogName name order = .ok ()) : catalogNamesEqual name name order = true :=
  (catalogNamesEqual_iff h h).mpr rfl

/-- Accepted groups are different relationships. -/
theorem groups_pairwise (records : List Record) : (groups records).Pairwise fun group other =>
    Accepted group → Accepted other → orderedOf group ≠ orderedOf other := by
  refine (groups_spec records).2.2.imp fun {group later} hapart hgroup hlater hequal => ?_
  obtain ⟨first, hfirst, -⟩ := hgroup.interpreted
  have hmem : first ∈ later := by
    refine (ordered_ok_iff.mp hlater.orders).2.1.mem_iff.mp ?_
    rw [← hequal]
    exact (ordered_ok_iff.mp hgroup.orders).2.1.mem_iff.mpr (List.mem_of_head? hfirst)
  have hhas := hapart first hmem
  rw [groupHas, hfirst, Option.any_some, Record.sameName,
    catalogNamesEqual_self (hgroup.head_name hfirst)] at hhas
  cases hhas

/-- What the scan collects: the enforced relationships reached, each once, and resolved. -/
structure Selected (database : DatabaseReader) (records : List Record) (name : List UInt8)
    (relationships : List (List Record)) (constraints : List Constraint) : Prop where
  resolved : relationships.mapM (resolve database) = .ok constraints
  nodup : relationships.Nodup
  mem_iff : ∀ components, components ∈ relationships ↔ ∃ group, Reached records name group ∧
    enforced group = true ∧ ordered group = .ok components
  accepted : ∀ group, Reached records name group → Accepted group

/-- What is checked of it. -/
structure Checked (database : DatabaseReader) (target : TableDefinition)
    (constraints : List Constraint) : Prop where
  inventoried : Inventoried database constraints target
  tables : ∀ table ∈ endpointTables constraints,
    table.root = target.root ∨ Inventoried database constraints table

/-- Before the first pass the name alone is known. -/
theorem progress_start (database : DatabaseReader) (records : List Record) (name : List UInt8) :
    Progress database records name (groups records) []
      { names := [name], constraints := [], advanced := false } := by
  refine ⟨.refl _, List.mem_singleton_self name, fun n hn => ?_, by simp, by simp, by simp, rfl⟩
  rw [List.mem_singleton.mp hn]
  exact .refl

/-- The closure selects the groups that are reached. -/
theorem closure_selected {database : DatabaseReader} {records : List Record} {name : List UInt8}
    {scan : Scan} (h : closure database (groups records)
      { names := [name], constraints := [], advanced := false } = .ok scan) :
    ∃ relationships, Selected database records name relationships scan.constraints := by
  obtain ⟨left, taken, hprogress, hleft⟩ := (progress_start database records name).closure h
  -- the groups taken are those reached
  have htaken : ∀ group, group ∈ taken ↔ Reached records name group := fun group =>
    Reach.mem_iff_reached hprogress.start hprogress.reached hprogress.gives
      fun other hother hnot n hn => by
        rcases List.mem_append.mp (hprogress.perm.mem_iff.mpr hother) with hmem | hmem
        · exact absurd hmem hnot
        · exact hleft other hmem n hn
  refine ⟨(taken.filter enforced).map orderedOf, hprogress.resolved, ?_, fun components => ?_,
    fun group hgroup => hprogress.accepted group ((htaken group).mpr hgroup)⟩
  · have hpairwise : (taken ++ left).Pairwise fun group other =>
        Accepted group → Accepted other → orderedOf group ≠ orderedOf other := by
      refine (hprogress.perm.pairwise_iff ?_).mpr (groups_pairwise records)
      exact fun {_ _} h hother hgroup => (h hgroup hother).symm
    have hsub : (taken.filter enforced).Sublist (taken ++ left) :=
      List.filter_sublist.trans (List.sublist_append_left _ _)
    refine List.pairwise_map.mpr ((hpairwise.sublist hsub).imp_of_mem fun {a b} ha hb hne => ?_)
    exact hne (hprogress.accepted a (List.mem_filter.mp ha).1)
      (hprogress.accepted b (List.mem_filter.mp hb).1)
  · rw [List.mem_map]
    constructor
    · rintro ⟨group, hgroup, rfl⟩
      obtain ⟨hmem, henforced⟩ := List.mem_filter.mp hgroup
      exact ⟨group, (htaken group).mp hmem, henforced, (hprogress.accepted group hmem).orders⟩
    · rintro ⟨group, hreached, henforced, hordered⟩
      exact ⟨group, List.mem_filter.mpr ⟨(htaken group).mpr hreached, henforced⟩,
        orderedOf_eq hordered⟩

/-- The checks of the tables pass exactly where each table is inventoried. -/
theorem checked_iff {database : DatabaseReader} {target : TableDefinition}
    {relationships : List (List Record)} {constraints : List Constraint}
    (hresolved : relationships.mapM (resolve database) = .ok constraints) :
    Checked database target constraints ↔ checkTarget target constraints = .ok () ∧
      incoming database target.root constraints = .ok () ∧
      ∃ checked, (endpointTables constraints).foldlM (checkTable database constraints)
        [target.root] =
        .ok checked := by
  have hstored := endpointTables_stored hresolved
  have hroots : ∀ table ∈ endpointTables constraints, ∀ other ∈ endpointTables constraints,
      table.root = other.root → table = other := by
    intro table htable other hother hroot
    have hequal := hstored table htable
    rw [hroot, hstored other hother] at hequal
    exact (Except.ok.inj hequal).symm
  rw [checkTables_ok_iff hroots]
  constructor
  · rintro ⟨htarget, htables⟩
    exact ⟨htarget.target, htarget.incoming, fun table htable =>
      (htables table htable).imp_left List.mem_singleton.mpr⟩
  · rintro ⟨htarget, hincoming, htables⟩
    exact ⟨⟨htarget, hincoming⟩, fun table htable =>
      (htables table htable).imp_left List.mem_singleton.mp⟩

/-- A component is accepted where its closure and all its checks succeed. -/
theorem component_ok_iff {database : DatabaseReader} {records : List Record}
    {target : TableDefinition} {name : List UInt8} {constraints : List Constraint} :
    component database records target name = .ok constraints ↔ ∃ scan,
      closure database (groups records) { names := [name], constraints := [], advanced := false } =
        .ok scan ∧ scan.constraints = constraints ∧ Checked database target constraints := by
  simp only [component, bind_ok_iff, exists_unit, pure_ok_iff]
  constructor
  · rintro ⟨scan, hclosure, htarget, hincoming, checked, hchecked, rfl⟩
    obtain ⟨relationships, hselected⟩ := closure_selected hclosure
    exact ⟨scan, hclosure, rfl,
      (checked_iff hselected.resolved).mpr ⟨htarget, hincoming, checked, hchecked⟩⟩
  · rintro ⟨scan, hclosure, rfl, hchecked⟩
    obtain ⟨relationships, hselected⟩ := closure_selected hclosure
    obtain ⟨htarget, hincoming, checked, hfold⟩ := (checked_iff hselected.resolved).mp hchecked
    exact ⟨scan, hclosure, htarget, hincoming, checked, hfold, rfl⟩

end Jet3.RelationshipCatalog
