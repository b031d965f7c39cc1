import Jet3.Catalog.NameComparison
import Jet3.Relationship.ConnectedComponent

/-!
# The inventory of a table

A table of the component has as many relationship records as the relationships collected have
endpoints there, and each record is one of them. So no two of its records hold the same bytes, and a
relationship that names the table is known by the index that stands for it.

* `table_eq_of_equal` says that a table is found by all its names;
* `Resolves` says what a resolved relationship owes to its tables;
* `Inventoried.record_injective` says that the bytes of a record determine it.
-/

namespace Jet3.RelationshipCatalog

open Outcome

variable {database : DatabaseReader} {constraints : List Constraint} {table : TableDefinition}

/-! ## Tables by name -/

/-- A catalog record that names a user table. -/
def NamesTable (order : SortOrder) (name : List UInt8) (record : CatalogRecord) : Prop :=
  record.objectClass = .user ∧ record.kind = .table ∧
    catalogNamesEqual record.name name order = true

/-- The root found for a name is that of every table of the name. -/
theorem matchTable_roots {order : SortOrder} {name : List UInt8} {catalog : List CatalogRecord}
    {root : PageNumber} (h : catalog.foldlM (matchTable order name) none = .ok (some root)) :
    (∃ record ∈ catalog, NamesTable order name record ∧ record.tableDefinition = some root) ∧
      ∀ record ∈ catalog, NamesTable order name record →
        ∀ other, record.tableDefinition = some other → other = root := by
  have hrun := foldlM_ok_induction (motive := fun done found =>
      (∀ root, found = some root → ∃ record ∈ done, NamesTable order name record ∧
        record.tableDefinition = some root) ∧
      ∀ record ∈ done, NamesTable order name record →
        ∀ other, record.tableDefinition = some other → found = some other)
    (by simp)
    (fun done record rest found found' _ hdone hstep => by
      unfold matchTable at hstep
      split at hstep
      next hnames =>
        simp only [bind_ok_iff, exists_unit, refuseIf_ok_iff, pure_ok_iff, Bool.not_eq_true,
          Option.isSome_eq_false_iff, Option.isNone_iff_eq_none] at hstep
        obtain ⟨rfl, rfl⟩ := hstep
        refine ⟨fun root hroot => ⟨record, by simp, hnames, hroot⟩, fun other hother => ?_⟩
        rcases List.mem_append.mp hother with hother | hother
        · -- the earlier records of the name have no definition
          intro hother' root hroot
          exact absurd (hdone.2 other hother hother' root hroot) (Option.some_ne_none root).symm
        · obtain rfl := List.mem_singleton.mp hother
          exact fun _ _ hroot => hroot
      next hnames =>
        obtain rfl := Except.ok.inj hstep
        refine ⟨fun root hroot => ?_, fun other hother => ?_⟩
        · obtain ⟨other, hother, hfound⟩ := hdone.1 root hroot
          exact ⟨other, List.mem_append_left _ hother, hfound⟩
        · rcases List.mem_append.mp hother with hother | hother
          · exact hdone.2 other hother
          · obtain rfl := List.mem_singleton.mp hother
            exact fun hother' => absurd hother' hnames) h
  refine ⟨hrun.1 root rfl, fun record hrecord hnames other hother => ?_⟩
  exact (Option.some.inj (hrun.2 record hrecord hnames other hother)).symm

/-- Two equal names find one table, where both find any. -/
theorem table_eq_of_equal {name name' : List UInt8} {table' : TableDefinition}
    (hequal : catalogNamesEqual name name' database.sortOrder = true)
    (h : RelationshipCatalog.table database name = .ok table)
    (h' : RelationshipCatalog.table database name' = .ok table') : table = table' := by
  simp only [RelationshipCatalog.table, bind_ok_iff, exists_unit, okOr_ok_iff, pure_ok_iff] at h h'
  obtain ⟨catalog, hcatalog, _, hfold, root, rfl, found, hfound, -, rfl⟩ := h
  obtain ⟨catalog', hcatalog', _, hfold', root', rfl, found', hfound', -, rfl⟩ := h'
  obtain rfl := Except.ok.inj (hcatalog.symm.trans hcatalog')
  obtain ⟨⟨record, hrecord, hnames, hroot⟩, hall⟩ := matchTable_roots hfold
  obtain ⟨⟨record', hrecord', hnames', hroot'⟩, hall'⟩ := matchTable_roots hfold'
  suffices hroots : root = root' by
    subst hroots
    exact Except.ok.inj (hfound.symm.trans hfound')
  -- a plain name is passed over on the way from the record of the other, and one that is not plain
  -- can be the end of the way
  rcases hplain : plainName database.sortOrder name' with _ | _
  · refine hall' record hrecord ⟨hnames.1, hnames.2.1, ?_⟩ root hroot
    exact catalogNamesEqual_trans hnames.2.2 hequal fun _ h => by
      rw [hplain] at h
      cases h
  · refine (hall record' hrecord' ⟨hnames'.1, hnames'.2.1, ?_⟩ root' hroot').symm
    exact catalogNamesEqual_trans hnames'.2.2 (catalogNamesEqual_comm name' name _ ▸ hequal)
      fun _ _ => hplain

/-! ## References -/

/-- The markers of the two sides. -/
theorem decodeSide_ok_iff {logicalIndex : ℕ} {fields : LogicalFields} {side : RelationshipSide} :
    decodeSide logicalIndex fields = .ok side ↔
      fields.marker = 1 ∧ side = .primaryTable ∨ fields.marker = 2 ∧ side = .foreignTable := by
  unfold decodeSide
  split
  next h => simp [h, eq_comm]
  next h =>
    split
    next h' => simp [h', eq_comm]
    next h' => simp [h, h']

/-- The reference of a relationship record is what its words say. -/
theorem reference_of_decodeLogicalKind {context : IndexDecodeContext}
    {physical : List PhysicalIndexDefinition} {logicalIndex : ℕ} {primarySeen : Bool}
    {fields : LogicalFields} {reference : RelationshipReference}
    (h : decodeLogicalKind context physical logicalIndex primarySeen fields =
      .ok (.relationship reference)) :
    reference =
      { side := if fields.marker = 1 then .primaryTable else .foreignTable
        relatedTable := fields.related, rawSelector := fields.selector
        rawRelationOrdinal := fields.relationOrdinal, rawContext := fields.context } := by
  unfold decodeLogicalKind at h
  split at h
  · -- an index of the other classes names no table
    simp only [decodeOrdinary, bind_ok_iff, exists_unit] at h
    obtain ⟨-, -, h⟩ := h
    split at h
    · simp only [bind_ok_iff, exists_unit, pure_ok_iff] at h
      obtain ⟨-, -, -, -, h⟩ := h
      cases h
    · cases h
  · split at h
    · simp only [decodeRelationship, bind_ok_iff, exists_unit, pure_ok_iff, decodeSide_ok_iff] at h
      obtain ⟨-, side, hside, -, -, hreference⟩ := h
      rw [← IndexDefinitionKind.relationship.inj hreference]
      rcases hside with ⟨hmarker, rfl⟩ | ⟨hmarker, rfl⟩ <;> simp [hmarker]
    · cases h

/-- The class of a decoded index is that of its record. -/
theorem exists_decodeLogicalKind {root : PageNumber}
    (h : database.tableDefinition root = .ok table) {index : IndexDefinition}
    (hindex : index ∈ table.indexes) : ∃ context physical logicalIndex primarySeen,
      decodeLogicalKind context physical logicalIndex primarySeen
        (LogicalFields.read index.rawRecord) = .ok index.kind := by
  simp only [DatabaseReader.tableDefinition, WriteError.ofDefinition_ok_iff, Jet3.tableDefinition,
    decodeDefinition, bind_ok_iff, exists_unit, pure_ok_iff, mapError_ok_iff] at h
  obtain ⟨_, _, _, ⟨_, _, _, _, _, _, _, _, _, _, decoded, hindexes, _, _, _, _, rfl⟩, _, rfl⟩ := h
  simp only [decodeIndexes, bind_ok_iff, exists_unit, pure_ok_iff] at hindexes
  obtain ⟨physical, _, records, _, names, _, scan, hscan, _, rfl⟩ := hindexes
  -- every logical index of the scan was decoded from its record
  have hrun := foldlM_ok_induction (motive := fun _ (scan : LogicalScan) =>
      ∀ index ∈ scan.logical, ∃ context physical logicalIndex primarySeen,
        decodeLogicalKind context physical logicalIndex primarySeen
          (LogicalFields.read index.rawRecord) = .ok index.kind) (by simp)
    (fun _ entry _ scan scan' _ hdone hstep => by
      simp only [decodeLogical, bind_ok_iff, exists_unit, pure_ok_iff] at hstep
      obtain ⟨-, kind, hkind, rfl⟩ := hstep
      intro index hindex
      rcases List.mem_append.mp hindex with hindex | hindex
      · exact hdone index hindex
      · obtain rfl := List.mem_singleton.mp hindex
        exact ⟨_, _, _, _, hkind⟩) hscan
  exact hrun index hindex

/-- The relationships of a table are those of its indexes. -/
theorem mem_relationships {relation : Relation} (h : relation ∈ relationships table) :
    relation.index ∈ table.indexes ∧ relation.index.kind = .relationship relation.reference := by
  simp only [relationships, List.mem_filterMap] at h
  obtain ⟨index, hindex, h⟩ := h
  split at h
  next reference hkind =>
    obtain rfl := Option.some.inj h
    exact ⟨hindex, hkind⟩
  next => cases h

/-- Records of the same bytes refer to the same table from the same side. -/
theorem reference_eq {root : PageNumber} (h : database.tableDefinition root = .ok table)
    {relation other : Relation} (hrelation : relation ∈ relationships table)
    (hother : other ∈ relationships table)
    (hraw : relation.index.rawRecord = other.index.rawRecord) :
    relation.reference = other.reference := by
  have hread : ∀ {r : Relation}, r ∈ relationships table → r.reference =
      { side := if (LogicalFields.read r.index.rawRecord).marker = 1 then .primaryTable
          else .foreignTable
        relatedTable := (LogicalFields.read r.index.rawRecord).related
        rawSelector := (LogicalFields.read r.index.rawRecord).selector
        rawRelationOrdinal := (LogicalFields.read r.index.rawRecord).relationOrdinal
        rawContext := (LogicalFields.read r.index.rawRecord).context } := by
    intro r hr
    obtain ⟨hindex, hkind⟩ := mem_relationships hr
    obtain ⟨_, _, _, _, hdecode⟩ := exists_decodeLogicalKind h hindex
    rw [hkind] at hdecode
    exact reference_of_decodeLogicalKind hdecode
  rw [hread hrelation, hread hother, hraw]

/-! ## Resolved relationships -/

/-- What a resolved relationship owes to its first record and its tables: the tables are those of
the record's names, each holds the record of its endpoint, and the index of the child has the
relationship's name. -/
structure Resolves (database : DatabaseReader) (record : Record) (constraint : Constraint)
    (primary foreign : Relation) : Prop where
  parent : RelationshipCatalog.table database record.parent = .ok constraint.parent
  child : RelationshipCatalog.table database record.child = .ok constraint.child
  primary_mem : primary ∈ relationships constraint.parent
  primary_side : primary.reference.side = .primaryTable
  primary_related : primary.reference.relatedTable = constraint.child.root
  parentRecord : constraint.parentRecord = primary.index.rawRecord
  foreign_mem : foreign ∈ relationships constraint.child
  foreign_side : foreign.reference.side = .foreignTable
  foreign_name : catalogNamesEqual foreign.index.name record.name record.order = true
  childRecord : constraint.childRecord = foreign.index.rawRecord

/-- The unique relation is one of the list. -/
theorem mem_of_uniqueRelation {relations : List Relation} {relation : Relation}
    (h : uniqueRelation relations = .ok relation) : relation ∈ relations := by
  unfold uniqueRelation at h
  split at h
  · cases h
  · rw [← Except.ok.inj h]
    exact List.mem_singleton_self _
  · cases h

/-- A resolved constraint comes from two relations that belong together. -/
theorem exists_resolves {components : List Record} {constraint : Constraint}
    (h : resolve database components = .ok constraint) :
    ∃ record primary foreign, components.head? = some record ∧
      Resolves database record constraint primary foreign := by
  simp only [resolve, resolveTables, bind_ok_iff, exists_unit, okOr_ok_iff, pure_ok_iff] at h
  obtain ⟨record, hrecord, parent, hparent, child, hchild, record', hrecord', _, _, foreign,
    hforeign, _, _, _, primary, hprimary, _, rfl⟩ := h
  obtain rfl := Option.some.inj (hrecord.symm.trans hrecord')
  have hforeign := List.mem_filter.mp (mem_of_uniqueRelation hforeign)
  have hprimary := List.mem_filter.mp (mem_of_uniqueRelation hprimary)
  rw [decide_eq_true_eq] at hforeign hprimary
  obtain ⟨hforeign, hname, hforeignSide, -⟩ := hforeign
  obtain ⟨hprimary, hprimarySide, hrelated, -⟩ := hprimary
  exact ⟨record, primary, foreign, hrecord, hparent, hchild, hprimary, hprimarySide, hrelated, rfl,
    hforeign, hforeignSide, hname, rfl⟩

/-! ## Records of an inventoried table -/

/-- Every relationship of a table is matched once. -/
theorem Inventoried.matchCount (h : Inventoried database constraints table) :
    (∀ relation ∈ relationships table, matchCount table.root relation constraints = 1) ∧
      (relationships table).length = endpointCount table.root constraints := by
  have htarget := h.target
  simp only [checkTarget, bind_ok_iff, exists_unit, refuseIf_ok_iff, forM_ok_iff, not_not, ne_eq]
    at htarget
  exact htarget

/-- The records of the endpoints at a table, as the relationships hold them. -/
def endpointRecords (root : PageNumber) (constraints : List Constraint) :
    List (Bytes logicalRecordLen) :=
  constraints.flatMap fun constraint =>
    (if constraint.parent.root = root then [constraint.parentRecord] else []) ++
      if constraint.child.root = root then [constraint.childRecord] else []

/-- A constraint has one record at each of its ends. -/
theorem length_endpointRecords (root : PageNumber) (constraints : List Constraint) :
    (endpointRecords root constraints).length = endpointCount root constraints := by
  rw [endpointRecords, endpointCount, List.length_flatMap]
  congr 1
  refine List.map_congr_left fun constraint _ => ?_
  rw [List.length_append]
  split <;> split <;> rfl

/-- The records of the endpoints of a table. -/
theorem mem_endpointRecords {root : PageNumber} {record : Bytes logicalRecordLen} :
    record ∈ endpointRecords root constraints ↔
      ∃ constraint ∈ constraints, recordMatches root record constraint = true := by
  simp only [endpointRecords, List.mem_flatMap, List.mem_append, recordMatches, decide_eq_true_eq]
  refine exists_congr fun constraint => and_congr_right fun _ => or_congr ?_ ?_
  all_goals split
  all_goals simp_all [eq_comm]

/-- Relationships whose tables are those of the database, and whose records these tables hold. -/
def Stored (database : DatabaseReader) (constraints : List Constraint) : Prop :=
  ∀ constraint ∈ constraints, ∃ record primary foreign,
    Resolves database record constraint primary foreign

/-- A file has one definition at a root. -/
theorem table_eq_of_root {table' : TableDefinition}
    (h : database.tableDefinition table.root = .ok table)
    (h' : database.tableDefinition table'.root = .ok table') (hroot : table.root = table'.root) :
    table = table' := by
  rw [hroot, h'] at h
  exact (Except.ok.inj h).symm

/-- A relationship that matches a record of a table has it as its primary or as its foreign
record. -/
theorem Resolves.of_recordMatches {record : Record} {constraint : Constraint}
    {primary foreign relation : Relation}
    (h : Resolves database record constraint primary foreign)
    (htable : database.tableDefinition table.root = .ok table)
    (hrelation : relation ∈ relationships table)
    (hmatches : recordMatches table.root relation.index.rawRecord constraint = true) :
    constraint.parent = table ∧ primary.index.rawRecord = relation.index.rawRecord ∧
        primary.reference = relation.reference ∨
      constraint.child = table ∧ foreign.index.rawRecord = relation.index.rawRecord ∧
        foreign.reference = relation.reference := by
  rw [recordMatches, decide_eq_true_eq] at hmatches
  rcases hmatches with ⟨hroot, hraw⟩ | ⟨hroot, hraw⟩
  · have hsame := table_eq_of_root (table_ok h.parent) htable hroot.symm
    have hraw := h.parentRecord.symm.trans hraw.symm
    exact .inl ⟨hsame, hraw, reference_eq htable (hsame ▸ h.primary_mem) hrelation hraw⟩
  · have hsame := table_eq_of_root (table_ok h.child) htable hroot.symm
    have hraw := h.childRecord.symm.trans hraw.symm
    exact .inr ⟨hsame, hraw, reference_eq htable (hsame ▸ h.foreign_mem) hrelation hraw⟩

/-- Where every element has a property for one item at most, no two elements have it for one. -/
theorem pairwise_of_countP_le_one {α β : Type} {p : β → α → Bool} {items : List β} {l : List α}
    (h : ∀ x ∈ items, l.countP (p x) ≤ 1) :
    l.Pairwise fun a b => ∀ x ∈ items, p x a = true → p x b = false := by
  induction l with
  | nil => exact .nil
  | cons a l ih =>
    refine List.pairwise_cons.mpr ⟨fun b hb x hx ha => ?_, ih fun x hx => ?_⟩
    · have hcount := h x hx
      rw [List.countP_cons_of_pos ha] at hcount
      have hnone : l.countP (p x) = 0 := by omega
      rw [← Bool.not_eq_true]
      exact List.countP_eq_zero.mp hnone b hb
    · exact ((List.sublist_cons_self a l).countP_le).trans (h x hx)

/-- The records of a table that was inventoried differ in their bytes. -/
theorem Inventoried.nodup (h : Inventoried database constraints table)
    (htable : database.tableDefinition table.root = .ok table)
    (hstored : Stored database constraints) :
    ((relationships table).map fun relation => relation.index.rawRecord).Nodup := by
  obtain ⟨hmatches, hlength⟩ := h.matchCount
  let raws := (relationships table).map fun relation => relation.index.rawRecord
  -- every endpoint is a record of the table
  have hsubset : endpointRecords table.root constraints ⊆ raws := by
    intro raw hraw
    obtain ⟨constraint, hconstraint, hmatch⟩ := mem_endpointRecords.mp hraw
    obtain ⟨record, primary, foreign, hresolves⟩ := hstored constraint hconstraint
    rw [recordMatches, decide_eq_true_eq] at hmatch
    rcases hmatch with ⟨hroot, rfl⟩ | ⟨hroot, rfl⟩
    · have hsame := table_eq_of_root (table_ok hresolves.parent) htable hroot.symm
      exact List.mem_map.mpr ⟨primary, hsame ▸ hresolves.primary_mem, hresolves.parentRecord.symm⟩
    · have hsame := table_eq_of_root (table_ok hresolves.child) htable hroot.symm
      exact List.mem_map.mpr ⟨foreign, hsame ▸ hresolves.foreign_mem, hresolves.childRecord.symm⟩
  have hnodup : (endpointRecords table.root constraints).Nodup := by
    refine List.nodup_flatMap.mpr ⟨fun constraint hconstraint => ?_, ?_⟩
    · -- the two endpoints of a relationship are on different sides
      obtain ⟨record, primary, foreign, hresolves⟩ := hstored constraint hconstraint
      split <;> split
      next hparent hchild =>
        refine List.nodup_cons.mpr ⟨fun hmem => ?_, List.nodup_singleton _⟩
        have hparent := table_eq_of_root (table_ok hresolves.parent) htable hparent
        have hchild := table_eq_of_root (table_ok hresolves.child) htable hchild
        have hraw := List.mem_singleton.mp hmem
        rw [hresolves.parentRecord, hresolves.childRecord] at hraw
        have hreference := reference_eq htable (hparent ▸ hresolves.primary_mem)
          (hchild ▸ hresolves.foreign_mem) hraw
        have hside := hresolves.primary_side
        rw [hreference, hresolves.foreign_side] at hside
        cases hside
      all_goals simp
    · have hone : ∀ raw ∈ raws, constraints.countP (recordMatches table.root raw) ≤ 1 := by
        intro raw hraw
        obtain ⟨relation, hrelation, rfl⟩ := List.mem_map.mp hraw
        exact (hmatches relation hrelation).le
      refine (pairwise_of_countP_le_one hone).imp_of_mem fun {a b} ha hb hapart raw hraw hraw' => ?_
      have hmatch : ∀ constraint : Constraint, raw ∈
          (if constraint.parent.root = table.root then [constraint.parentRecord] else []) ++
            (if constraint.child.root = table.root then [constraint.childRecord] else []) →
          recordMatches table.root raw constraint = true := by
        intro constraint hmem
        obtain ⟨found, hfound, hmatch⟩ := (@mem_endpointRecords [constraint] table.root raw).mp
          (by simpa [endpointRecords] using hmem)
        rwa [List.mem_singleton.mp hfound] at hmatch
      have hin : raw ∈ raws :=
        hsubset (mem_endpointRecords.mpr ⟨a, ha, hmatch a hraw⟩)
      have hnone := hapart raw hin (hmatch a hraw)
      rw [hmatch b hraw'] at hnone
      cases hnone
  have hperm : (endpointRecords table.root constraints).Perm raws := by
    refine (List.subperm_of_subset hnodup hsubset).perm_of_length_le ?_
    rw [length_endpointRecords, ← hlength, List.length_map]
  exact hperm.nodup_iff.mp hnodup

/-- The bytes of a record determine it. -/
theorem Inventoried.record_injective (h : Inventoried database constraints table)
    (htable : database.tableDefinition table.root = .ok table)
    (hstored : Stored database constraints) {relation other : Relation}
    (hrelation : relation ∈ relationships table) (hother : other ∈ relationships table)
    (hraw : relation.index.rawRecord = other.index.rawRecord) : relation = other :=
  List.inj_on_of_nodup_map (h.nodup htable hstored) hrelation hother hraw

/-- A record of an inventoried table is the endpoint of a relationship. -/
theorem Inventoried.exists_matches (h : Inventoried database constraints table)
    {relation : Relation}
    (hrelation : relation ∈ relationships table) :
    ∃ constraint ∈ constraints, recordMatches table.root relation.index.rawRecord constraint =
      true := by
  have hone : constraints.countP (recordMatches table.root relation.index.rawRecord) = 1 :=
    h.matchCount.1 relation hrelation
  exact List.countP_pos_iff.mp (by rw [hone]; exact Nat.one_pos)

end Jet3.RelationshipCatalog
