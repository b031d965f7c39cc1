import Jet3.Definition.TableWriter
import Jet3.Relationship.GroupNames
import Jet3.Relationship.Inventory

/-!
# The order of the relationship catalog

The connected component of a table in a catalog and in a permutation of it. A group that was
accepted is accepted in every order of its records.

* `Selected.subset` says that what is collected in one order is collected in every other that
  succeeds: the tables of a relationship hold its records, so that an inventory without it fails;
* `exists_component_perm` says that another order succeeds where the rows of one name have endpoints
  of the same names: then the same groups are reached.
-/

namespace Jet3.RelationshipCatalog

open Outcome

variable {order : SortOrder} {records records' : List Record} {name : List UInt8}
  {group group' : List Record}

/-! ## Success -/

section Success

variable {database : DatabaseReader} {pending taken skipped : List (List Record)} {scan : Scan}

/-- A group that is no obstacle: it is accepted, and resolved if it is enforced. -/
def Passable (database : DatabaseReader) (group : List Record) : Prop :=
  Accepted group ∧
    (enforced group = true → ∃ constraint, resolve database (orderedOf group) = .ok constraint)

/-- A group that passes its checks is visited. -/
theorem exists_visit (hnamed : Named group)
    (hpassable : ∀ n ∈ scan.names, groupTouched n group → Passable database group) :
    ∃ visited, visit database scan group = .ok visited := by
  obtain ⟨first, rest, rfl, -⟩ := hnamed
  by_cases htouched : scan.names.any first.touchedBy = true
  · obtain ⟨n, hn, htouches⟩ := List.any_eq_true.mp htouched
    obtain ⟨haccepted, hresolved⟩ := hpassable n hn ⟨first, rfl, htouches⟩
    have henforced := enforced_of_ordered haccepted.orders
    have hinterpreted : first.interpreted.isSome := by
      obtain ⟨found, hfound, hsome⟩ := haccepted.interpreted
      cases hfound
      exact hsome
    -- all checks of a touched group pass, which leaves its case
    have hchecks : ∀ visited, (if enforced (orderedOf (first :: rest)) = false then .ok (some scan)
        else do
          let constraint ← resolve database (orderedOf (first :: rest))
          return some { names := scan.names ++ [first.parent, first.child]
                        constraints := scan.constraints ++ [constraint], advanced := true }) =
          Except.ok visited → visit database scan (first :: rest) = .ok visited := by
      intro visited hvisited
      refine bind_ok_iff.mpr ⟨first, rfl, ?_⟩
      rw [if_neg (by rw [htouched]; decide)]
      refine bind_ok_iff.mpr ⟨(), refuseIf_ok_iff.mpr ?_, bind_ok_iff.mpr ⟨_, haccepted.orders,
        bind_ok_iff.mpr ⟨⟨⟩, forM_ok_iff.mpr haccepted.names, hvisited⟩⟩⟩
      rw [Option.isNone_iff_eq_none, ← ne_eq, Option.ne_none_iff_isSome]
      exact hinterpreted
    by_cases hcase : enforced (first :: rest) = true
    · obtain ⟨constraint, hconstraint⟩ := hresolved hcase
      refine ⟨some { names := scan.names ++ [first.parent, first.child]
                     constraints := scan.constraints ++ [constraint], advanced := true },
        hchecks _ ?_⟩
      rw [if_neg (by rw [henforced, hcase]; decide), hconstraint]
      rfl
    · refine ⟨some scan, hchecks _ ?_⟩
      rw [if_pos (by rw [henforced]; exact Bool.not_eq_true _ ▸ hcase)]
  · refine ⟨none, bind_ok_iff.mpr ⟨first, rfl, ?_⟩⟩
    rw [if_pos (Bool.not_eq_true _ ▸ htouched)]
    rfl

/-- Where every reached group is passable, a pass succeeds. -/
theorem exists_pass (hpassable : ∀ group, Reached records name group → Passable database group)
    (h : Progress database records name (skipped ++ pending) taken scan) :
    ∃ result, pass database pending scan = .ok result := by
  induction pending generalizing skipped taken scan with
  | nil => exact ⟨_, rfl⟩
  | cons group rest ih =>
    have hin : group ∈ skipped ++ group :: rest := List.mem_append_right _ List.mem_cons_self
    have hnamed : Named group :=
      (groups_spec records).2.1 group (h.perm.mem_iff.mp (List.mem_append_right _ hin))
    obtain ⟨visited, hvisit⟩ : ∃ visited, visit database scan group = .ok visited :=
      exists_visit hnamed fun n hn htouched =>
        hpassable group (h.reached_of_touched hin hn htouched)
    rcases visited with _ | next
    · rw [List.append_cons] at h
      obtain ⟨result, hresult⟩ := ih h
      exact ⟨_, bind_ok_iff.mpr ⟨none, hvisit, bind_ok_iff.mpr ⟨result, hresult, rfl⟩⟩⟩
    · obtain ⟨result, hresult⟩ := ih (h.visit hvisit)
      exact ⟨result, bind_ok_iff.mpr ⟨some next, hvisit, hresult⟩⟩

/-- Where every reached group is passable, the scan succeeds. -/
theorem exists_closure (hpassable : ∀ group, Reached records name group → Passable database group)
    (h : Progress database records name pending taken scan) :
    ∃ result, closure database pending scan = .ok result := by
  induction hlength : pending.length using Nat.strongRecOn generalizing pending taken scan with
  | ind k ih =>
    have hstart : Progress database records name ([] ++ pending) taken
      { scan with advanced := false } :=
      ⟨h.perm, h.start, h.known, h.reached, h.accepted, h.gives, h.resolved⟩
    obtain ⟨result, hresult⟩ := exists_pass hpassable hstart
    unfold closure
    split
    · rename_i error herror
      rw [hresult] at herror
      cases herror
    · rename_i left next hpass
      obtain ⟨taken', hprogress⟩ := (hstart.pass hpass).1
      split
      · rename_i hadvanced
        -- as for a closure that succeeds: fewer groups are left
        have hlt := ((pass_length hpass).2 hadvanced).resolve_left (by simp)
        exact ih left.length (hlength ▸ hlt) hprogress rfl
      · exact ⟨next, rfl⟩

end Success

/-! ## The component -/

/-- Matches are counted in any order. -/
theorem matchCount_perm {constraints constraints' : List Constraint}
    (h : constraints.Perm constraints')
    (root : PageNumber) (relation : Relation) :
    matchCount root relation constraints = matchCount root relation constraints' :=
  h.countP_eq _

/-- Endpoints are counted in any order. -/
theorem endpointCount_perm {constraints constraints' : List Constraint}
    (h : constraints.Perm constraints') (target : PageNumber) :
    endpointCount target constraints = endpointCount target constraints' :=
  (h.map _).sum_eq

/-- An inventory does not depend on the order of the constraints. -/
theorem Inventoried.perm {database : DatabaseReader} {constraints constraints' : List Constraint}
    {table : TableDefinition} (h : Inventoried database constraints table)
    (hperm : constraints.Perm constraints') : Inventoried database constraints' table := by
  have hfrom : incomingFrom database table.root constraints =
      incomingFrom database table.root constraints' := by
    funext count root
    simp only [incomingFrom, matchCount_perm hperm]
  refine ⟨?_, ?_⟩
  · refine Eq.trans ?_ h.target
    rw [checkTarget, checkTarget, endpointCount_perm hperm]
    simp only [matchCount_perm hperm]
  · refine Eq.trans ?_ h.incoming
    rw [RelationshipCatalog.incoming, RelationshipCatalog.incoming, endpointCount_perm hperm, hfrom]

/-- Neither do the checks of the component. -/
theorem Checked.perm {database : DatabaseReader} {constraints constraints' : List Constraint}
    {target : TableDefinition} (h : Checked database target constraints)
    (hperm : constraints.Perm constraints') : Checked database target constraints' := by
  refine ⟨h.inventoried.perm hperm, fun table htable => ?_⟩
  have hmem : table ∈ endpointTables constraints := (hperm.flatMap_right _).mem_iff.mpr htable
  exact (h.tables table hmem).imp_right fun hinventoried => hinventoried.perm hperm

section Component

variable {database : DatabaseReader} {relationships relationships' : List (List Record)}
  {constraints constraints' : List Constraint}

/-- A relationship with these components is collected wherever its group is accepted. -/
theorem Selected.mem_of_perm (h : Selected database records name relationships constraints)
    (hreached : Reached records name group) (hperm : group'.Perm group)
    (horder : ∀ record ∈ group', record.order = order) (haccepted : Accepted group')
    (henforced : enforced group' = true) {components : List Record}
    (hcomponents : ordered group' = .ok components) : components ∈ relationships := by
  have huniform := haccepted.uniform horder
  exact (h.mem_iff components).mpr ⟨group, hreached,
    (enforced_of_perm hperm huniform).trans henforced,
    ordered_of_perm hperm horder huniform hcomponents⟩

/-- A group that was selected passes its checks in another order as well. -/
theorem Selected.passable (h : Selected database records name relationships constraints)
    (hpermGroup : group.Perm group') (hreached : Reached records name group)
    (horder : ∀ record ∈ records, record.order = order) : Passable database group' := by
  have haccepted := h.accepted group hreached
  have horder' : ∀ record ∈ group, record.order = order :=
    fun record hrecord => horder record (mem_records hreached.1 hrecord)
  have huniform := haccepted.uniform horder'
  refine ⟨haccepted.perm hpermGroup horder', fun henforced => ?_⟩
  rw [orderedOf_eq (ordered_of_perm hpermGroup horder' huniform haccepted.orders)]
  have hmem : orderedOf group ∈ relationships := (h.mem_iff _).mpr
    ⟨group, hreached, (enforced_of_perm hpermGroup huniform).symm.trans henforced, haccepted.orders⟩
  exact exists_mapM_ok_iff.mp ⟨constraints, h.resolved⟩ _ hmem

/-- Results of permuted lists are permuted. -/
theorem perm_of_mapM {α β ε : Type} {f : α → Except ε β} {l l' : List α} {m m' : List β}
    (hperm : l.Perm l') (h : l.mapM f = .ok m) (h' : l'.mapM f = .ok m') : m.Perm m' := by
  obtain ⟨found, hfound, hperm'⟩ := List.perm_comp_forall₂ hperm.symm (mapM_ok_iff_forall₂.mp h)
  rw [mapM_ok_iff_forall₂.mpr hfound] at h'
  rw [← Except.ok.inj h']
  exact hperm'.symm

/-- What is collected is resolved from the groups reached. -/
theorem Selected.exists_group (h : Selected database records name relationships constraints)
    {constraint : Constraint} (hconstraint : constraint ∈ constraints) :
    ∃ group components, Reached records name group ∧ enforced group = true ∧
      ordered group = .ok components ∧ resolve database components = .ok constraint := by
  obtain ⟨components, hcomponents, hresolve⟩ := exists_of_mem_mapM h.resolved hconstraint
  obtain ⟨group, hreached, henforced, hordered⟩ := (h.mem_iff components).mp hcomponents
  exact ⟨group, components, hreached, henforced, hordered, hresolve⟩

/-- The constraints of a component are those of its file. -/
theorem Selected.stored (h : Selected database records name relationships constraints) :
    Stored database constraints := by
  intro constraint hconstraint
  obtain ⟨_, _, -, -, -, hresolve⟩ := h.exists_group hconstraint
  obtain ⟨record, primary, foreign, -, hresolves⟩ := exists_resolves hresolve
  exact ⟨record, primary, foreign, hresolves⟩

/-- Every selected relationship is resolved to one of the constraints. -/
theorem Selected.mem_constraints (h : Selected database records name relationships constraints)
    {components : List Record} (hcomponents : components ∈ relationships) {constraint : Constraint}
    (hresolve : resolve database components = .ok constraint) : constraint ∈ constraints := by
  obtain ⟨found, hfound, hequal⟩ := exists_mem_of_mapM h.resolved hcomponents
  rw [hresolve] at hequal
  exact Except.ok.inj hequal ▸ hfound

/-- The first component of a relationship is a record of its group. -/
theorem mem_group_of_head {components : List Record} {record : Record}
    (h : ordered group = .ok components) (hhead : components.head? = some record) :
    record ∈ group :=
  (ordered_ok_iff.mp h).2.1.mem_iff.mp (List.mem_of_head? hhead)

/-! ### What another order collects -/

/-- A relationship of a child table that another order inventoried is collected there: its foreign
record is that of a relationship that was collected, and the index of the record has the names of
both. -/
theorem Selected.mem_of_child (h : Selected database records name relationships constraints)
    (h' : Selected database records' name relationships' constraints')
    (hperm : records.Perm records') (horder : ∀ record ∈ records, record.order = order)
    (hreached : Reached records name group) (henforced : enforced group = true)
    {components : List Record} (hcomponents : ordered group = .ok components)
    {constraint : Constraint} (hresolve : resolve database components = .ok constraint)
    (hinventoried : Inventoried database constraints' constraint.child) :
    components ∈ relationships' := by
  obtain ⟨record, primary, foreign, hhead, hresolves⟩ := exists_resolves hresolve
  have hrecord := mem_group_of_head hcomponents hhead
  have htable := table_ok hresolves.child
  obtain ⟨constraint', hconstraint', hmatches⟩ := hinventoried.exists_matches hresolves.foreign_mem
  obtain ⟨group', components', hreached', -, hcomponents', hresolve'⟩ :=
    h'.exists_group hconstraint'
  obtain ⟨record', primary', foreign', hhead', hresolves'⟩ := exists_resolves hresolve'
  have hrecord' := mem_group_of_head hcomponents' hhead'
  have hin := horder record (mem_records hreached.1 hrecord)
  have hin' := horder record' (hperm.mem_iff.mpr (mem_records hreached'.1 hrecord'))
  rcases hresolves'.of_recordMatches htable hresolves.foreign_mem hmatches with
    ⟨-, -, hreference⟩ | ⟨hchild, hraw, -⟩
  · -- a primary record is not a foreign one
    have hside := hresolves'.primary_side
    rw [hreference, hresolves.foreign_side] at hside
    cases hside
  · obtain rfl := hinventoried.record_injective htable h'.stored (hchild ▸ hresolves'.foreign_mem)
      hresolves.foreign_mem hraw
    have hvalid := (checkNames_ok_iff.mp ((h.accepted group hreached).names record (by
      rw [orderedOf_eq hcomponents]
      exact List.mem_of_head? hhead))).2 _ List.mem_cons_self
    have hvalid' := (checkNames_ok_iff.mp ((h'.accepted group' hreached').names record' (by
      rw [orderedOf_eq hcomponents']
      exact List.mem_of_head? hhead'))).2 _ List.mem_cons_self
    have hkey := nameKey_of_equal hvalid hresolves.foreign_name
    have hkey' := nameKey_of_equal hvalid' hresolves'.foreign_name
    rw [hin] at hkey
    rw [hin', hkey] at hkey'
    have hpermGroup := (h.accepted group hreached).perm_of_component (h'.accepted group' hreached')
      hreached.1 hreached'.1 hperm horder hrecord hrecord' (Except.ok.inj hkey')
    exact h'.mem_of_perm hreached' hpermGroup
      (fun other hother => horder other (mem_records hreached.1 hother)) (h.accepted group hreached)
      henforced hcomponents

/-- A relationship of a table that another order inventoried is collected there. -/
theorem Selected.mem_of_table (h : Selected database records name relationships constraints)
    (h' : Selected database records' name relationships' constraints')
    (hperm : records.Perm records') (horder : ∀ record ∈ records, record.order = order)
    {tables : List TableDefinition} (hsub : endpointTables constraints' ⊆ tables)
    (hinventoried : ∀ table ∈ tables, Inventoried database constraints' table)
    (hreached : Reached records name group) (henforced : enforced group = true)
    {components : List Record} (hcomponents : ordered group = .ok components)
    {constraint : Constraint} (hresolve : resolve database components = .ok constraint)
    (htable : constraint.parent ∈ tables ∨ constraint.child ∈ tables) :
    components ∈ relationships' := by
  refine h.mem_of_child h' hperm horder hreached henforced hcomponents hresolve
    (hinventoried constraint.child ?_)
  rcases htable with hparent | hchild
  · -- the primary record of the parent leads to the child
    obtain ⟨record, primary, foreign, -, hresolves⟩ := exists_resolves hresolve
    obtain ⟨constraint', hconstraint', hmatches⟩ :=
      (hinventoried _ hparent).exists_matches hresolves.primary_mem
    obtain ⟨_, _, -, -, -, hresolve'⟩ := h'.exists_group hconstraint'
    obtain ⟨record', primary', foreign', -, hresolves'⟩ := exists_resolves hresolve'
    rcases hresolves'.of_recordMatches (table_ok hresolves.parent) hresolves.primary_mem
      hmatches with
      ⟨-, -, hreference⟩ | ⟨-, -, hreference⟩
    · have hroot : constraint'.child.root = constraint.child.root := by
        rw [← hresolves'.primary_related, hreference, hresolves.primary_related]
      rw [← table_eq_of_root (table_ok hresolves'.child) (table_ok hresolves.child) hroot]
      exact hsub (List.mem_flatMap.mpr ⟨constraint', hconstraint', by simp⟩)
    · have hside := hresolves'.foreign_side
      rw [hreference, hresolves.primary_side] at hside
      cases hside
  · exact hchild

/-- A name that passes the grammar; any table found by an equal one is among some. -/
def Located (database : DatabaseReader) (tables : List TableDefinition) (n : List UInt8) : Prop :=
  validateCatalogName n database.sortOrder = .ok () ∧ ∀ m table,
    validateCatalogName m database.sortOrder = .ok () →
      nameComponent database.sortOrder n = nameComponent database.sortOrder m →
      RelationshipCatalog.table database m = .ok table → table ∈ tables

/-- A name is located where its table is. -/
theorem located_of_table {tables : List TableDefinition} {n m : List UInt8}
    {table : TableDefinition}
    (hn : validateCatalogName n database.sortOrder = .ok ())
    (hm : validateCatalogName m database.sortOrder = .ok ())
    (hsame : nameComponent database.sortOrder n = nameComponent database.sortOrder m)
    (htable : RelationshipCatalog.table database m = .ok table) (hmem : table ∈ tables) :
    Located database tables n := by
  refine ⟨hn, fun m' table' hm' hsame' htable' => ?_⟩
  have hequal : catalogNamesEqual m' m database.sortOrder = true :=
    (catalogNamesEqual_iff hm' hm).mpr (hsame'.symm.trans hsame)
  rwa [table_eq_of_equal hequal htable' htable]

/-- A user table of the catalog, under the name it has there. -/
def CatalogTable (database : DatabaseReader) (name : List UInt8) (target : TableDefinition) :
    Prop :=
  ∃ catalog, database.catalog = .ok catalog ∧ ∃ record ∈ catalog, record.objectClass = .user ∧
    record.kind = .table ∧ record.name = name ∧ record.tableDefinition = some target.root

/-- The name of a table of the catalog is located where the table is. -/
theorem CatalogTable.located {target : TableDefinition} {tables : List TableDefinition}
    (h : CatalogTable database name target)
    (hname : validateCatalogName name database.sortOrder = .ok ())
    (htarget : database.tableDefinition target.root = .ok target) (hmem : target ∈ tables) :
    Located database tables name := by
  refine ⟨hname, fun m table hm hsame htable => ?_⟩
  obtain ⟨catalog, hcatalog, record, hrecord, hclass, hkind, rfl, hdefinition⟩ := h
  simp only [RelationshipCatalog.table, bind_ok_iff, exists_unit, okOr_ok_iff, pure_ok_iff]
    at htable
  obtain ⟨catalog', hcatalog', _, hfold, root, rfl, found, hfound, -, rfl⟩ := htable
  obtain rfl := Except.ok.inj (hcatalog.symm.trans hcatalog')
  have hnames : NamesTable database.sortOrder m record :=
    ⟨hclass, hkind, (catalogNamesEqual_iff hname hm).mpr hsame⟩
  obtain rfl := (matchTable_roots hfold).2 record hrecord hnames target.root hdefinition
  rw [htarget] at hfound
  exact Except.ok.inj hfound ▸ hmem

/-- A group touched by the name of a table that another order inventoried is collected there, and it
gives such names. -/
theorem Selected.mem_of_touched (h : Selected database records name relationships constraints)
    (h' : Selected database records' name relationships' constraints')
    (hperm : records.Perm records')
    (horder : ∀ record ∈ records, record.order = database.sortOrder)
    {tables : List TableDefinition} (hsub : endpointTables constraints' ⊆ tables)
    (hinventoried : ∀ table ∈ tables, Inventoried database constraints' table)
    (hreached : Reached records name group) (henforced : enforced group = true) {n : List UInt8}
    (hlocated : Located database tables n) (htouched : groupTouched n group) :
    orderedOf group ∈ relationships' ∧ ∀ m ∈ groupGives group, Located database tables m := by
  have haccepted := h.accepted group hreached
  have hcomponents := haccepted.orders
  have horder' : ∀ record ∈ group, record.order = database.sortOrder :=
    fun record hrecord => horder record (mem_records hreached.1 hrecord)
  obtain ⟨first, hfirst, htouches⟩ := htouched
  have hmem : orderedOf group ∈ relationships :=
    (h.mem_iff _).mpr ⟨group, hreached, henforced, hcomponents⟩
  obtain ⟨constraint, hresolve⟩ := exists_mapM_ok_iff.mp ⟨constraints, h.resolved⟩ _ hmem
  obtain ⟨record, primary, foreign, hhead, hresolves⟩ := exists_resolves hresolve
  have huniform := haccepted.uniform horder'
  have hrecord := mem_group_of_head hcomponents hhead
  have hagrees := huniform first (List.mem_of_head? hfirst) record hrecord
  have hagrees' := huniform record hrecord first (List.mem_of_head? hfirst)
  -- the touching name is that of the parent or of the child
  have htable : constraint.parent ∈ tables ∨ constraint.child ∈ tables := by
    rw [Record.touchedBy, horder' first (List.mem_of_head? hfirst), Bool.or_eq_true,
      catalogNamesEqual_iff hlocated.1 hagrees.parent_valid,
      catalogNamesEqual_iff hlocated.1 hagrees.child_valid] at htouches
    refine htouches.imp (fun hparent => ?_) fun hchild => ?_
    · exact hlocated.2 _ _ hagrees'.parent_valid (hparent.trans hagrees.parent) hresolves.parent
    · exact hlocated.2 _ _ hagrees'.child_valid (hchild.trans hagrees.child) hresolves.child
  have hcollected := h.mem_of_table h' hperm horder hsub hinventoried hreached henforced hcomponents
    hresolve htable
  have hconstraint := h'.mem_constraints hcollected hresolve
  refine ⟨hcollected, fun m hm => ?_⟩
  rw [groupGives_of_enforced hfirst henforced] at hm
  rcases List.mem_cons.mp hm with rfl | hm
  · exact located_of_table hagrees.parent_valid hagrees'.parent_valid hagrees.parent
      hresolves.parent
      (hsub (List.mem_flatMap.mpr ⟨constraint, hconstraint, by simp⟩))
  · obtain rfl := List.mem_singleton.mp hm
    exact located_of_table hagrees.child_valid hagrees'.child_valid hagrees.child hresolves.child
      (hsub (List.mem_flatMap.mpr ⟨constraint, hconstraint, by simp⟩))

/-- The target and the tables of the component are inventoried. -/
theorem Checked.inventoried_of_mem {target : TableDefinition}
    (h : Checked database target constraints)
    (hselected : Selected database records name relationships constraints)
    (htarget : database.tableDefinition target.root = .ok target) {table : TableDefinition}
    (htable : table ∈ target :: endpointTables constraints) :
    Inventoried database constraints table := by
  rcases List.mem_cons.mp htable with rfl | htable
  · exact h.inventoried
  · rcases h.tables table htable with hroot | hinventoried
    · -- the table at the root of the target is the target
      have hstored := endpointTables_stored hselected.resolved table htable
      rw [hroot, htarget] at hstored
      exact Except.ok.inj hstored ▸ h.inventoried
    · exact hinventoried

/-- What is selected in one order of the catalog is selected in another that succeeds. -/
theorem Selected.subset {target : TableDefinition}
    (h : Selected database records name relationships constraints)
    (h' : Selected database records' name relationships' constraints')
    (hchecked : Checked database target constraints') (hperm : records.Perm records')
    (horder : ∀ record ∈ records, record.order = database.sortOrder)
    (hname : validateCatalogName name database.sortOrder = .ok ())
    (htarget : database.tableDefinition target.root = .ok target)
    (htable : CatalogTable database name target) : relationships ⊆ relationships' := by
  let tables := target :: endpointTables constraints'
  have hsub : endpointTables constraints' ⊆ tables := List.subset_cons_self _ _
  have hinventoried : ∀ table ∈ tables, Inventoried database constraints' table :=
    fun table hmem => hchecked.inventoried_of_mem h' htarget hmem
  -- every known name is that of a table of the other component
  have hlocated : ∀ n, Reach.Known groupTouched groupGives (groups records) name n →
      Located database tables n := by
    intro n hn
    induction hn with
    | refl => exact htable.located hname htarget List.mem_cons_self
    | @tail n m hn hlead ih =>
      obtain ⟨group, hgroup, htouched, hm⟩ := hlead
      have henforced : enforced group = true := by
        by_contra hnot
        rw [groupGives_of_unenforced (Bool.not_eq_true _ ▸ hnot)] at hm
        cases hm
      exact (h.mem_of_touched h' hperm horder hsub hinventoried ⟨hgroup, n, hn, htouched⟩ henforced
        ih htouched).2 m hm
  intro components hcomponents
  obtain ⟨group, hreached, henforced, hordered⟩ := (h.mem_iff components).mp hcomponents
  obtain ⟨-, n, hn, htouched⟩ := id hreached
  rw [← orderedOf_eq hordered]
  exact (h.mem_of_touched h' hperm horder hsub hinventoried hreached henforced (hlocated n hn)
    htouched).1

/-- Two orders of the catalog that both succeed collect the same relationships. -/
theorem Selected.perm {target : TableDefinition}
    (h : Selected database records name relationships constraints)
    (hchecked : Checked database target constraints)
    (h' : Selected database records' name relationships' constraints')
    (hchecked' : Checked database target constraints') (hperm : records.Perm records')
    (horder : ∀ record ∈ records, record.order = database.sortOrder)
    (hname : validateCatalogName name database.sortOrder = .ok ())
    (htarget : database.tableDefinition target.root = .ok target)
    (htable : CatalogTable database name target) : constraints.Perm constraints' := by
  have horder' : ∀ record ∈ records', record.order = database.sortOrder :=
    fun record hrecord => horder record (hperm.mem_iff.mpr hrecord)
  refine perm_of_mapM ((List.perm_ext_iff_of_nodup h.nodup h'.nodup).mpr fun components => ?_)
    h.resolved h'.resolved
  exact ⟨fun hmem => h.subset h' hchecked' hperm horder hname htarget htable hmem,
    fun hmem => h'.subset h hchecked hperm.symm horder' hname htarget htable hmem⟩

/-! ### Rows whose endpoints agree -/

/-- The table names of a catalog: that of the target, and the endpoints of its rows. -/
def tableNames (name : List UInt8) (records : List Record) : List (List UInt8) :=
  name :: records.flatMap fun record => [record.parent, record.child]

/-- Two names are equal to the same table names. -/
def Alike (order : SortOrder) (names : List (List UInt8)) (a b : List UInt8) : Prop :=
  ∀ n ∈ names, catalogNamesEqual n a order = catalogNamesEqual n b order

/-- Rows of one name have endpoints that are equal to the same table names. -/
def EndpointsAgree (order : SortOrder) (name : List UInt8) (records : List Record) : Prop :=
  ∀ a ∈ records, ∀ b ∈ records, a.sameName b = true →
    Alike order (tableNames name records) a.parent b.parent ∧
      Alike order (tableNames name records) a.child b.child

/-- Agreement of endpoints does not depend on the order of the records. -/
theorem EndpointsAgree.perm (h : EndpointsAgree order name records)
    (hperm : records.Perm records') :
    EndpointsAgree order name records' := by
  intro a ha b hb hsame
  obtain ⟨hparent, hchild⟩ := h a (hperm.mem_iff.mpr ha) b (hperm.mem_iff.mpr hb) hsame
  have hnames : ∀ n ∈ tableNames name records', n ∈ tableNames name records := by
    intro n hn
    exact (((hperm.flatMap_right _).cons name).mem_iff).mpr hn
  exact ⟨fun n hn => hparent n (hnames n hn), fun n hn => hchild n (hnames n hn)⟩

/-- Both endpoints of a record are among the names. -/
theorem mem_tableNames {record : Record} (hrecord : record ∈ records) :
    record.parent ∈ tableNames name records ∧ record.child ∈ tableNames name records :=
  ⟨List.mem_cons_of_mem _ (List.mem_flatMap.mpr ⟨record, hrecord, by simp⟩),
    List.mem_cons_of_mem _ (List.mem_flatMap.mpr ⟨record, hrecord, by simp⟩)⟩

/-- The endpoints of a record are those of the first record of its group. -/
theorem EndpointsAgree.head (h : EndpointsAgree order name records)
    (hgroup : group ∈ groups records)
    {first record : Record} (hfirst : group.head? = some first) (hrecord : record ∈ group) :
    Alike order (tableNames name records) first.parent record.parent ∧
      Alike order (tableNames name records) first.child record.child := by
  rcases sameName_of_head hgroup hfirst hrecord with rfl | hsame
  · exact ⟨fun _ _ => rfl, fun _ _ => rfl⟩
  · exact h first (mem_records hgroup (List.mem_of_head? hfirst)) record
      (mem_records hgroup hrecord) hsame

/-- A table name touches two records of the same endpoints alike. -/
theorem touchedBy_eq {a b : Record} {n : List UInt8} (ha : a.order = order) (hb : b.order = order)
    (halike : Alike order (tableNames name records) a.parent b.parent ∧
      Alike order (tableNames name records) a.child b.child) (hn : n ∈ tableNames name records) :
    a.touchedBy n = b.touchedBy n := by
  rw [Record.touchedBy, Record.touchedBy, ha, hb, halike.1 n hn, halike.2 n hn]

section Agree

variable (horder : ∀ record ∈ records, record.order = order)
  (hagree : EndpointsAgree order name records)
  (haccepted : ∀ group, Reached records name group → Accepted group)

include horder hagree

/-- The group of a record that a known table name touches is reached. -/
theorem exists_reached_of_touched {n : List UInt8}
    (hknown : Reach.Known groupTouched groupGives (groups records) name n)
    (hn : n ∈ tableNames name records) {record : Record} (hrecord : record ∈ records)
    (htouched : record.touchedBy n = true) :
    ∃ group, Reached records name group ∧ record ∈ group := by
  obtain ⟨group, hgroup, hmem⟩ := exists_group_of_mem hrecord
  obtain ⟨first, rest, rfl, -⟩ := (groups_spec records).2.1 group hgroup
  have hequal := touchedBy_eq (horder first (mem_records hgroup List.mem_cons_self))
    (horder record hrecord) (hagree.head hgroup rfl hmem) hn
  exact ⟨first :: rest, ⟨hgroup, n, hknown, first, rfl, hequal.trans htouched⟩, hmem⟩

include haccepted

/-- The records of a name that a known table name touches are a class: those named like them are
touched as well, so their names pass the grammar. -/
theorem nameClass_of_touched {n : List UInt8}
    (hknown : Reach.Known groupTouched groupGives (groups records) name n)
    (hn : n ∈ tableNames name records) {record : Record} (hrecord : record ∈ records)
    (htouched : record.touchedBy n = true) :
    NameClass records (Record.hasComponent order (nameComponent order record.name)) ∧
      record.hasComponent order (nameComponent order record.name) = true := by
  have hvalid : ∀ other ∈ records, other.touchedBy n = true →
      validateCatalogName other.name order = .ok () := by
    intro other hother htouches
    obtain ⟨group, hreached, hmem⟩ :=
      exists_reached_of_touched horder hagree hknown hn hother htouches
    obtain ⟨first, rest, rfl, -⟩ := (groups_spec records).2.1 group hreached.1
    exact (hasComponent_iff.mp ((haccepted _ hreached).hasComponent hreached.1 horder rfl hmem)).1
  have hself : record.hasComponent order (nameComponent order record.name) = true :=
    hasComponent_iff.mpr ⟨hvalid record hrecord htouched, rfl⟩
  -- a record named like one of the class is touched through the first record
  have hclosed : ∀ a ∈ records, ∀ b ∈ records,
      a.hasComponent order (nameComponent order record.name) = true → a.sameName b = true →
      b.hasComponent order (nameComponent order record.name) = true := by
    intro a ha b hb hclass hsame
    have hsame' := sameName_of_component (horder record hrecord) hself hclass
    have htouchesA := (touchedBy_eq (horder record hrecord) (horder a ha)
      (hagree record hrecord a ha hsame') hn).symm.trans htouched
    have htouchesB := (touchedBy_eq (horder a ha) (horder b hb) (hagree a ha b hb hsame)
      hn).symm.trans htouchesA
    obtain ⟨hvalidA, hcomponent⟩ := hasComponent_iff.mp hclass
    have hvalidB := hvalid b hb htouchesB
    rw [Record.sameName, horder a ha, catalogNamesEqual_iff hvalidA hvalidB] at hsame
    exact hasComponent_iff.mpr ⟨hvalidB, hsame.symm.trans hcomponent⟩
  refine ⟨⟨fun a ha b _ hclassA hclassB => sameName_of_component (horder a ha) hclassA hclassB,
    hclosed, fun a ha b hb hclass hsame => hclosed a ha b hb hclass ?_⟩, hself⟩
  rw [Record.sameName, horder b hb, catalogNamesEqual_comm] at hsame
  rwa [Record.sameName, horder a ha]

/-- A group that is reached in another order of the catalog has the records of one that is
reached. -/
theorem exists_reached_of_perm (hperm : records.Perm records')
    (hreached : Reached records' name group') :
    ∃ group, Reached records name group ∧ group.Perm group' := by
  -- the group of a touched first record has the same records in both orders
  have hgroup : ∀ {n n' : List UInt8} {other : List Record} {first : Record},
      Reach.Known groupTouched groupGives (groups records) name n → n ∈ tableNames name records →
      n' ∈ tableNames name records → Alike order (tableNames name records) n n' →
      other ∈ groups records' → other.head? = some first → first.touchedBy n' = true →
      ∃ group, Reached records name group ∧ group.Perm other ∧ first ∈ group := by
    intro n n' other first hknown hn hn' halike hother hfirst htouched
    have hmemOther := List.mem_of_head? hfirst
    have hin : first ∈ records := hperm.mem_iff.mpr (mem_records hother hmemOther)
    have htouches : first.touchedBy n = true := by
      obtain ⟨hparent, hchild⟩ := @mem_tableNames records name first hin
      rw [Record.touchedBy, horder first hin, catalogNamesEqual_comm n', catalogNamesEqual_comm n',
        ← halike _ hparent, ← halike _ hchild] at htouched
      rwa [Record.touchedBy, horder first hin, catalogNamesEqual_comm n, catalogNamesEqual_comm n]
    obtain ⟨group, hreached, hmem⟩ := exists_reached_of_touched horder hagree hknown hn hin htouches
    obtain ⟨hclass, hself⟩ := nameClass_of_touched horder hagree haccepted hknown hn hin htouches
    refine ⟨group, hreached, ?_, hmem⟩
    exact (group_perm_of_class hclass hreached.1 hmem hself).trans
      ((hperm.filter _).trans (group_perm_of_class (hclass.perm hperm) hother hmemOther hself).symm)
  have hknown : ∀ n', Reach.Known groupTouched groupGives (groups records') name n' →
      n' ∈ tableNames name records ∧
        ∃ n, Reach.Known groupTouched groupGives (groups records) name n ∧
          n ∈ tableNames name records ∧ Alike order (tableNames name records) n n' := by
    intro n' hn'
    induction hn' with
    | refl =>
      exact ⟨List.mem_cons_self, name, .refl, List.mem_cons_self, fun _ _ => rfl⟩
    | @tail n' m' _ hlead ih =>
      obtain ⟨hmemN, n, hn, hmem, halike⟩ := ih
      obtain ⟨other, hother, ⟨first, hfirst, htouched⟩, hm'⟩ := hlead
      obtain ⟨group, hreached, hpermGroup, hin⟩ :=
        hgroup hn hmem hmemN halike hother hfirst htouched
      have henforced' : enforced other = true := by
        by_contra hnot
        rw [groupGives_of_unenforced (Bool.not_eq_true _ ▸ hnot)] at hm'
        cases hm'
      have huniform := (haccepted group hreached).uniform
        fun record hrecord => horder record (mem_records hreached.1 hrecord)
      have henforced := (enforced_of_perm hpermGroup huniform).symm.trans henforced'
      obtain ⟨head, rest, rfl, -⟩ := (groups_spec records).2.1 group hreached.1
      have hhead : head ∈ records := mem_records hreached.1 List.mem_cons_self
      have hfirstRecord : first ∈ records := mem_records hreached.1 hin
      have hgives := @groupGives_of_enforced (head :: rest) _ rfl henforced
      obtain ⟨hparent, hchild⟩ := hagree.head hreached.1 rfl hin
      rw [groupGives_of_enforced hfirst henforced'] at hm'
      rcases List.mem_cons.mp hm' with rfl | hm'
      · exact ⟨(mem_tableNames hfirstRecord).1, head.parent, hreached.known (by simp [hgives]),
          (mem_tableNames hhead).1, hparent⟩
      · obtain rfl := List.mem_singleton.mp hm'
        exact ⟨(mem_tableNames hfirstRecord).2, head.child, hreached.known (by simp [hgives]),
          (mem_tableNames hhead).2, hchild⟩
  obtain ⟨hother, n', hn', first, hfirst, htouched⟩ := hreached
  obtain ⟨hmemN, n, hn, hmem, halike⟩ := hknown n' hn'
  obtain ⟨group, hreached, hpermGroup, -⟩ := hgroup hn hmem hmemN halike hother hfirst htouched
  exact ⟨group, hreached, hpermGroup⟩

end Agree

/-- Where the endpoints of rows of one name agree, the component is found in every order of the
catalog. -/
theorem exists_component_perm {target : TableDefinition}
    (horder : ∀ record ∈ records, record.order = order)
    (hagree : EndpointsAgree order name records) (hperm : records.Perm records')
    (h : component database records target name = .ok constraints) :
    ∃ constraints', component database records' target name = .ok constraints' ∧
      constraints.Perm constraints' := by
  obtain ⟨scan, hclosure, rfl, hchecked⟩ := component_ok_iff.mp h
  obtain ⟨relationships, hselected⟩ := closure_selected hclosure
  have horder' : ∀ record ∈ records', record.order = order :=
    fun record hrecord => horder record (hperm.mem_iff.mpr hrecord)
  -- what the other order reaches, this one has reached and passed
  have hpassable : ∀ group, Reached records' name group → Passable database group := by
    intro group' hreached
    obtain ⟨group, hreached, hpermGroup⟩ :=
      exists_reached_of_perm horder hagree hselected.accepted hperm hreached
    exact hselected.passable hpermGroup hreached horder
  obtain ⟨scan', hclosure'⟩ := exists_closure hpassable (progress_start database records' name)
  obtain ⟨relationships', hselected'⟩ := closure_selected hclosure'
  -- so both select the same relationships
  have hsame : ∀ components, components ∈ relationships ↔ components ∈ relationships' := by
    refine fun components => ⟨fun hmem => ?_, fun hmem => ?_⟩
    · obtain ⟨group, hreached, henforced, hcomponents⟩ := (hselected.mem_iff _).mp hmem
      obtain ⟨group', hreached', hpermGroup⟩ := exists_reached_of_perm horder' (hagree.perm hperm)
        hselected'.accepted hperm.symm hreached
      exact hselected'.mem_of_perm hreached' hpermGroup.symm
        (fun record hrecord => horder record (mem_records hreached.1 hrecord))
        (hselected.accepted group hreached) henforced hcomponents
    · obtain ⟨group', hreached', henforced, hcomponents⟩ := (hselected'.mem_iff _).mp hmem
      obtain ⟨group, hreached, hpermGroup⟩ :=
        exists_reached_of_perm horder hagree hselected.accepted hperm hreached'
      exact hselected.mem_of_perm hreached hpermGroup.symm
        (fun record hrecord => horder' record (mem_records hreached'.1 hrecord))
        (hselected'.accepted group' hreached') henforced hcomponents
  have hconstraints := perm_of_mapM ((List.perm_ext_iff_of_nodup hselected.nodup
    hselected'.nodup).mpr hsame) hselected.resolved hselected'.resolved
  exact ⟨scan'.constraints,
    component_ok_iff.mpr ⟨scan', hclosure', rfl, hchecked.perm hconstraints⟩,
    hconstraints⟩

end Component

/-! ## The component -/

/-- The connected component: the enforced relationships reached from the target through enforced
ones that share a table, each once. Every relationship reached has interpreted attributes and the
ordinals from zero on, and every record of a table of the component is one endpoint of one
relationship. In another order of the catalog the component is the same, or refused, and the same
where the endpoints of rows of one name agree. -/
theorem component_connected {database : DatabaseReader} {target : TableDefinition}
    {constraints : List Constraint}
    (htarget : database.tableDefinition target.root = .ok target)
    (h : component database records target name = .ok constraints) :
    (∃ relationships : List (List Record), relationships.Nodup ∧
      relationships.mapM (resolve database) = .ok constraints ∧
      ∀ components, components ∈ relationships ↔ ∃ group, Reached records name group ∧
        enforced group = true ∧ ordered group = .ok components) ∧
    (∀ group, Reached records name group → Complete group ∧
      ∃ first, group.head? = some first ∧ first.interpreted.isSome) ∧
    (∀ table ∈ target :: endpointTables constraints,
      ∀ relation ∈ RelationshipCatalog.relationships table,
        matchCount table.root relation constraints = 1) ∧
    ((∀ record ∈ records, record.order = database.sortOrder) →
      ∀ records', records.Perm records' →
        (validateCatalogName name database.sortOrder = .ok () → CatalogTable database name target →
          ∀ constraints', component database records' target name = .ok constraints' →
            constraints.Perm constraints') ∧
        (EndpointsAgree database.sortOrder name records →
          ∃ constraints', component database records' target name = .ok constraints' ∧
            constraints.Perm constraints')) := by
  obtain ⟨scan, hclosure, rfl, hchecked⟩ := component_ok_iff.mp h
  obtain ⟨relationships, hselected⟩ := closure_selected hclosure
  refine ⟨⟨relationships, hselected.nodup, hselected.resolved, hselected.mem_iff⟩,
    fun group hreached => ?_, fun table htable relation hrelation => ?_,
    fun horder records' hperm => ⟨?_, ?_⟩⟩
  · -- an accepted group was ordered, so its ordinals are all there
    have haccepted := hselected.accepted group hreached
    obtain ⟨-, hperm, hordinals⟩ := ordered_ok_iff.mp haccepted.orders
    refine ⟨?_, haccepted.interpreted⟩
    rw [Complete, ← hordinals]
    exact (hperm.map _).symm
  · exact (hchecked.inventoried_of_mem hselected htarget htable).matchCount.1 relation hrelation
  · intro hname htable constraints' h'
    obtain ⟨scan', hclosure', rfl, hchecked'⟩ := component_ok_iff.mp h'
    obtain ⟨relationships', hselected'⟩ := closure_selected hclosure'
    exact hselected.perm hchecked hselected' hchecked' hperm horder hname htarget htable
  · exact fun hagree => exists_component_perm horder hagree hperm h

/-! ## Two small databases -/

section Small

/-- The index of some columns of a table, on the pages 1 and 2. -/
def keyIndex (columns : List UInt16) (flags : PhysicalIndexFlagsSpec) : PhysicalIndexSpec :=
  { fields := columns.map fun column => { column, direction := .ascending }
    usageMapPage := 1, usageMapRow := 0, root := 2, flags, entryCount := 0 }

/-- The record of an endpoint. -/
def endpointIndex (name : UInt8) (physicalIndex : UInt16) (side : RelationshipSide)
    (relatedTable : PageNumber) (rawSelector relationOrdinal : UInt32) : LogicalIndexSpec :=
  { name := [name], physicalIndex
    kind := .relationship { side, relatedTable, rawSelector, relationOrdinal
                            cascadeUpdates := false, cascadeDeletes := false } }

/-- The definition page of a table of long columns. -/
def endpointPage (columns : List UInt8) (physicalIndexes : List PhysicalIndexSpec)
    (indexes : List LogicalIndexSpec) : Page :=
  match encodeTableDefinition
      { kind := .user, columns := columns.map fun name => { name := [name], columnType := .long }
        systemColumnClasses := [], physicalIndexes, indexes, ownedMap := { page := 1, row := 0 }
        availableMap := { page := 1, row := 0 }, rowCount := 0, longValueMaps := [] }
      pageBytes generalContext with
  | .ok bytes => (Block.fill pageBytes 0).write 0 bytes
  | .error _ => Block.fill pageBytes 0

/-- A user table of a catalog. -/
def userTable (name : List UInt8) (root : PageNumber) : CatalogRecord :=
  { id := root, kind := .table, objectClass := .user, rawFlags := 0, name
    tableDefinition := some root }

/-- Three tables A, B and C on the pages 3, 4 and 5: B references A in a relationship R, and C
references B in a relationship S. -/
def chainDatabase : DatabaseReader :=
  { file := [Block.fill pageBytes 0, (Block.fill pageBytes 0).write 0 [1],
      (Block.fill pageBytes 0).write 0 [4],
      endpointPage [0x4b] [keyIndex [0] .unique] [endpointIndex 0x52 0 .primaryTable 4 0 1],
      endpointPage [0x4b] [keyIndex [0] .unique, keyIndex [0] .ordinary]
        [endpointIndex 0x53 0 .primaryTable 5 0 0, endpointIndex 0x52 1 .foreignTable 3 1 0],
      endpointPage [0x4b] [keyIndex [0] .ordinary] [endpointIndex 0x53 0 .foreignTable 4 0 0]]
    sortOrder := .general
    catalog := .ok [userTable [0x41] 3, userTable [0x42] 4, userTable [0x43] 5] }

/-- A component of a relationship with endpoints `parent` and `child`. -/
def chainRecord (name parent child : UInt8) (attributes count ordinal : Int32) : Record :=
  { order := .general, name := [name], parent := [parent], child := [child], parentColumn := [0x4b]
    childColumn := [0x4b], attributes, count, ordinal }

/-- The relationships of the three tables, and an unenforced one U of C that is not followed. -/
def chainRecords : List Record :=
  [chainRecord 0x52 0x41 0x42 0 1 0, chainRecord 0x55 0x43 0x44 2 1 0,
    chainRecord 0x53 0x42 0x43 0 1 0]

/-- The last page holds a definition. -/
theorem chainDatabase_isSome : (chainDatabase.tableDefinition 5).toOption.isSome = true := by
  decide +kernel

/-- The table C, at the end of the chain. -/
def chainTarget : TableDefinition :=
  (chainDatabase.tableDefinition 5).toOption.get chainDatabase_isSome

/-- It is the target. -/
theorem chainDatabase_target :
    chainDatabase.tableDefinition chainTarget.root = .ok chainTarget := by
  decide +kernel

/-- From C, at the end of the chain, both relationships are collected, in every order of the
catalog. -/
theorem component_connected_chain : ∃ constraints constraints',
    component chainDatabase chainRecords chainTarget [0x43] = .ok constraints ∧
      component chainDatabase chainRecords.reverse chainTarget [0x43] = .ok constraints' ∧
      constraints.length = 2 ∧ constraints.Perm constraints' ∧
      (∃ group, Reached chainRecords [0x43] group ∧ enforced group = true ∧
        group.map Record.name = [[0x52]]) ∧
      ∀ table ∈ chainTarget :: endpointTables constraints,
        ∀ relation ∈ RelationshipCatalog.relationships table,
          matchCount table.root relation constraints = 1 := by
  obtain ⟨constraints, hcomponent, hlength⟩ := exists_ok_and
    (x := component chainDatabase chainRecords chainTarget [0x43])
    (p := fun constraints => constraints.length = 2) (by decide +kernel)
  obtain ⟨⟨relationships, -, hresolved, hmem⟩, -, hmatches, horders⟩ :=
    component_connected chainDatabase_target hcomponent
  have hname : validateCatalogName [0x43] chainDatabase.sortOrder = .ok () := by decide +kernel
  have hcatalog : CatalogTable chainDatabase [0x43] chainTarget :=
    ⟨_, rfl, userTable [0x43] 5, by simp, rfl, rfl, rfl, by decide +kernel⟩
  have hagree : EndpointsAgree chainDatabase.sortOrder [0x43] chainRecords := by
    unfold EndpointsAgree Alike
    decide +kernel
  obtain ⟨hsame, hsucceeds⟩ := horders (by decide) chainRecords.reverse
    (List.reverse_perm _).symm
  obtain ⟨constraints', hcomponent', -⟩ := hsucceeds hagree
  refine ⟨constraints, constraints', hcomponent, hcomponent', of_decide_eq_true hlength,
    hsame hname hcatalog constraints' hcomponent', ?_, hmatches⟩
  -- R is reached through S
  have hthrough : Reach.Known groupTouched groupGives (groups chainRecords) [0x43] [0x42] :=
    .tail .refl ⟨[chainRecord 0x53 0x42 0x43 0 1 0], by decide +kernel, ⟨_, rfl, by decide +kernel⟩,
      by decide +kernel⟩
  exact ⟨[chainRecord 0x52 0x41 0x42 0 1 0],
    ⟨by decide +kernel, [0x42], hthrough, _, rfl, by decide +kernel⟩, by decide +kernel, rfl⟩

/-- A table "A B" on the page 3 that references itself, and two tables "A\tB" and "T" without
relationships. -/
def spacedDatabase : DatabaseReader :=
  { file := [Block.fill pageBytes 0, (Block.fill pageBytes 0).write 0 [1],
      (Block.fill pageBytes 0).write 0 [4],
      endpointPage [0x4b, 0x4c, 0x4d, 0x4e] [keyIndex [0, 1] .unique, keyIndex [2, 3] .ordinary]
        [endpointIndex 0x50 0 .primaryTable 3 0 1, endpointIndex 0x52 1 .foreignTable 3 1 0],
      endpointPage [0x4b] [] [], endpointPage [0x4b] [] []]
    sortOrder := .general
    catalog := .ok [userTable [0x41, 0x20, 0x42] 3, userTable [0x41, 0x09, 0x42] 4,
      userTable [0x54] 5] }

/-- The definition on a page of the file. -/
def spacedTable (root : PageNumber) : TableDefinition :=
  (spacedDatabase.tableDefinition root).toOption.getD chainTarget

/-- The relationship of "A B" to itself. Its second component names the table with a space at the
end. -/
def spacedRecords : List Record :=
  [{ order := .general, name := [0x52], parent := [0x41, 0x20, 0x42, 0x20]
     child := [0x41, 0x20, 0x42, 0x20], parentColumn := [0x4c], childColumn := [0x4e]
     attributes := 0, count := 2, ordinal := 1 },
    { order := .general, name := [0x52], parent := [0x41, 0x20, 0x42], child := [0x41, 0x20, 0x42]
      parentColumn := [0x4b], childColumn := [0x4d], attributes := 0, count := 2, ordinal := 0 }]

/-- Rows of one name with different endpoints: whether the second is refused depends on which comes
first. And a table whose name has a tab is found by a name with a space at the end, but not by the
same name without it, so that the first row decides whether the relationship is collected. -/
theorem component_depends_on_order :
    (∀ root ∈ [4, 5], spacedDatabase.tableDefinition root = .ok (spacedTable root)) ∧
    (component spacedDatabase [chainRecord 0x52 0x41 0x42 0 2 0, chainRecord 0x52 0x54 0x43 0 2 1]
        (spacedTable 5) [0x54] = .ok [] ∧
      component spacedDatabase [chainRecord 0x52 0x54 0x43 0 2 1, chainRecord 0x52 0x41 0x42 0 2 0]
        (spacedTable 5) [0x54] = .error (.mismatch "relationship component metadata differs")) ∧
    (∃ constraint, component spacedDatabase spacedRecords (spacedTable 4) [0x41, 0x09, 0x42] =
        .ok [constraint]) ∧
      component spacedDatabase spacedRecords.reverse (spacedTable 4) [0x41, 0x09, 0x42] =
        .ok [] := by
  refine ⟨by decide +kernel, ⟨by decide +kernel, by decide +kernel⟩, ?_, by decide +kernel⟩
  obtain ⟨constraints, hcomponent, hlength⟩ := exists_ok_and
    (x := component spacedDatabase spacedRecords (spacedTable 4) [0x41, 0x09, 0x42])
    (p := fun constraints => constraints.length = 1) (by decide +kernel)
  obtain ⟨constraint, rfl⟩ := List.length_eq_one_iff.mp (of_decide_eq_true hlength)
  exact ⟨constraint, hcomponent⟩

end Small

end Jet3.RelationshipCatalog
