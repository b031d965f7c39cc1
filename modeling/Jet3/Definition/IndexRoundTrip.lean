import Jet3.Definition.ColumnRoundTrip

/-!
# Reading back the indexes of a definition

The physical records, the logical records and the logical names of a definition, read back one
section after the other. A physical index names its key columns by their stable identity, which is
their position in a definition the writer made.
-/

namespace Jet3

open Outcome Reader

/-- A definition whose columns are those of the specification. -/
abbrev DescribesColumns (columns : List ColumnSpec) (decoded : List ColumnDefinition) : Prop :=
  List.Forall₂ (fun entry (column : ColumnDefinition) =>
    DescribesColumn columns entry column.toRawColumn ∧ column.name = entry.1.name)
    columns.zipIdx decoded

/-- A column is found by its position. -/
theorem DescribesColumns.find? {columns : List ColumnSpec} {decoded : List ColumnDefinition}
    (h : DescribesColumns columns decoded) {ordinal : ℕ} {column : ColumnSpec}
    (hget : columns[ordinal]? = some column) :
    ∃ found, decoded.find? (fun candidate => candidate.storageOrdinal = ordinal) = some found ∧
      found.ordinal = ordinal ∧ found.physicalType = column.physicalType := by
  have hentry : columns.zipIdx[ordinal]? = some (column, ordinal) := by
    rw [List.getElem?_zipIdx, hget, Option.map_some, Nat.zero_add]
  obtain ⟨candidate, hcandidate, hdescribes, -⟩ := Lookup.getElem?_of_forall₂ h hentry
  obtain ⟨found, hfound⟩ : ∃ found, decoded.find? (fun candidate =>
      candidate.storageOrdinal = ordinal) = some found := by
    rw [← Option.isSome_iff_exists, List.find?_isSome]
    exact ⟨candidate, List.mem_of_getElem? hcandidate,
      decide_eq_true hdescribes.storageOrdinal_eq⟩
  refine ⟨found, hfound, ?_⟩
  -- The column found is the one of the specification at its own position.
  have hnumber : found.storageOrdinal = ordinal := of_decide_eq_true (List.find?_some hfound :)
  obtain ⟨entry, hmem, hother, -⟩ :=
    Lookup.exists_mem_of_forall₂ h (List.mem_of_find?_eq_some hfound)
  have hposition : entry.2 = ordinal := hother.storageOrdinal_eq.symm.trans hnumber
  have hcolumn := List.mem_zipIdx_iff_getElem?.mp hmem
  rw [hposition, hget, Option.some.injEq] at hcolumn
  exact ⟨hother.ordinal_eq.trans hposition, hcolumn ▸ hother.physicalType_eq⟩

/-! ## Physical indexes -/

/-- A key field as the reader reports it. -/
def IndexFieldSpec.decoded (field : IndexFieldSpec) : IndexField :=
  { column := field.column.toNat, direction := field.direction }

/-- A physical index that describes `index`. -/
structure DescribesPhysical (index : PhysicalIndexSpec) (decoded : PhysicalIndexDefinition) :
    Prop where
  fields_eq : decoded.fields = index.fields.map IndexFieldSpec.decoded
  rawFlags_eq : decoded.rawFlags = index.flags.raw
  unique_iff : decoded.unique = true ↔ index.flags.raw &&& uniqueFlag ≠ 0
  required_iff : decoded.required = true ↔ index.flags.raw &&& requiredFlag ≠ 0
  root_eq : decoded.root = index.root
  usageMap_eq : decoded.usageMap = { page := index.usageMapPage, row := index.usageMapRow }
  distinctKeyCount_eq : decoded.distinctKeyCount = index.entryCount.toNat

/-- A key slot of the record. -/
theorem physicalRecord_slot (index : PhysicalIndexSpec) {slot : ℕ} (h : slot < keySlotCount) :
    ((physicalRecord index).val.drop (slot * keySlotLen)).take keySlotLen =
      (keySlotBytes index.fields[slot]?).val := by
  have hget : (List.range keySlotCount)[slot]? = some slot := List.getElem?_range h
  exact take_drop_flatMap (g := fun slot => (keySlotBytes index.fields[slot]?).val)
    (fun slot => (keySlotBytes index.fields[slot]?).property) hget _

/-- The column word of a slot. -/
theorem leAt_physicalRecord_slot (index : PhysicalIndexSpec) {slot : ℕ} (h : slot < keySlotCount) :
    leAt (physicalRecord index).val (slot * keySlotLen) 2 =
      leAt (keySlotBytes index.fields[slot]?).val 0 2 := by
  rw [← physicalRecord_slot index h, leAt, leAt, List.drop_zero, List.take_take]
  rfl

/-- The direction byte of a slot. -/
theorem byteAt_physicalRecord_slot (index : PhysicalIndexSpec) {slot : ℕ}
    (h : slot < keySlotCount) :
    byteAt (physicalRecord index).val (slot * keySlotLen + 2) =
      byteAt (keySlotBytes index.fields[slot]?).val 2 := by
  rw [← physicalRecord_slot index h, byteAt, byteAt, List.getD_eq_getElem?_getD,
    List.getD_eq_getElem?_getD, List.getElem?_take, List.getElem?_drop, if_pos (by decide)]

/-- The record behind its key slots. -/
theorem physicalRecord_tail (index : PhysicalIndexSpec) :
    (physicalRecord index).val.drop 30 = [index.usageMapRow] ++ leBytes 3 index.usageMapPage ++
      leBytes 4 index.root ++ [index.flags.raw] :=
  List.drop_left' (length_keySlots index.fields)

theorem byteAt_physicalRecord_row (index : PhysicalIndexSpec) :
    byteAt (physicalRecord index).val 30 = index.usageMapRow := by
  have h := congrArg (fun bytes => bytes[0]?.getD 0) (physicalRecord_tail index)
  rw [List.getElem?_drop] at h
  rw [byteAt, List.getD_eq_getElem?_getD]
  exact h

theorem leAt_physicalRecord_map (index : PhysicalIndexSpec) (h : index.usageMapPage < 256 ^ 3) :
    leAt (physicalRecord index).val 31 3 = index.usageMapPage := by
  have hdrop := congrArg (List.drop 1) (physicalRecord_tail index)
  rw [List.drop_drop] at hdrop
  rw [leAt, hdrop]
  show leValue (leBytes 3 index.usageMapPage) = index.usageMapPage
  exact leValue_leBytes_of_lt h

theorem leAt_physicalRecord_root (index : PhysicalIndexSpec) (h : index.root < 256 ^ 4) :
    leAt (physicalRecord index).val 34 4 = index.root := by
  have hdrop := congrArg (List.drop 4) (physicalRecord_tail index)
  rw [List.drop_drop] at hdrop
  rw [leAt, hdrop]
  show leValue (leBytes 4 index.root) = index.root
  exact leValue_leBytes_of_lt h

theorem byteAt_physicalRecord_flags (index : PhysicalIndexSpec) :
    byteAt (physicalRecord index).val 38 = index.flags.raw := by
  have h := congrArg (fun bytes => bytes[8]?.getD 0) (physicalRecord_tail index)
  rw [List.getElem?_drop] at h
  rw [byteAt, List.getD_eq_getElem?_getD]
  exact h

/-- A stored direction is decoded as itself. -/
theorem decodeDirection_stored (physicalIndex slot : ℕ) (field : IndexFieldSpec) :
    decodeDirection physicalIndex slot (byteAt (keySlotBytes (some field)).val 2) =
      .ok field.direction := by
  rcases field with ⟨column, _ | _⟩ <;> rfl

/-- The key fields of a physical index the writer admits: columns of the table, each named once. -/
structure AdmittedKey (columns : List ColumnSpec) (fields : List IndexFieldSpec) : Prop where
  nonempty : fields ≠ []
  length_le : fields.length ≤ keySlotCount
  column_lt : ∀ field ∈ fields, field.column.toNat < columns.length
  fresh : ∀ entry ∈ fields.zipIdx, ∀ earlier ∈ fields.take entry.2, earlier.column ≠ entry.1.column

/-- The key slots are read back as the key fields; the slots after them are unused. -/
theorem decodeKeySlots_written {columns : List ColumnSpec} {decoded : List ColumnDefinition}
    (physicalIndex : ℕ) {index : PhysicalIndexSpec} (hmax : columns.length ≤ maxColumnCount)
    (hdecoded : DescribesColumns columns decoded) (hkey : AdmittedKey columns index.fields) :
    ∃ unused, (List.range keySlotCount).foldlM
        (decodeKeySlot physicalIndex (physicalRecord index) decoded) ([], false) =
      .ok (index.fields.map IndexFieldSpec.decoded, unused) := by
  have hloop := exists_foldlM_ok (f := decodeKeySlot physicalIndex (physicalRecord index) decoded)
    (fun done state => state = ((index.fields.take done.length).map IndexFieldSpec.decoded,
      decide (index.fields.length < done.length))) (l := List.range keySlotCount) (s := ([], false))
    rfl (by
      rintro done slot rest state hsplit rfl
      obtain ⟨hslot, hlt⟩ := Lookup.range_split hsplit
      subst hslot
      refine ⟨_, ?_, rfl⟩
      rw [List.length_append, List.length_singleton, decodeKeySlot,
        leAt_physicalRecord_slot index hlt, byteAt_physicalRecord_slot index hlt]
      rcases Nat.lt_or_ge done.length index.fields.length with hused | hunused
      · -- A used slot names a column by its position.
        have hget : index.fields[done.length]? = some index.fields[done.length] :=
          List.getElem?_eq_getElem hused
        have hfield := hkey.column_lt _ (List.getElem_mem hused)
        have hword : leAt (keySlotBytes (some index.fields[done.length])).val 0 2 =
            index.fields[done.length].column.toNat := by
          show leValue (leBytes 2 index.fields[done.length].column.toNat) = _
          exact leValue_leBytes_of_lt index.fields[done.length].column.toNat_lt
        have hne : index.fields[done.length].column.toNat ≠ nullColumnOrdinal := by
          have : maxColumnCount < nullColumnOrdinal := by decide
          omega
        obtain ⟨found, hfound, hordinal, -⟩ :=
          hdecoded.find? (List.getElem?_eq_getElem hfield)
        have hfresh : ¬∃ field ∈ (index.fields.take done.length).map IndexFieldSpec.decoded,
            field.column = found.ordinal := by
          rintro ⟨field, hfieldMem, heq⟩
          obtain ⟨earlier, hearlier, rfl⟩ := List.mem_map.mp hfieldMem
          have hentry : (index.fields[done.length], done.length) ∈ index.fields.zipIdx :=
            List.mem_zipIdx_iff_getElem?.mpr hget
          exact hkey.fresh _ hentry earlier hearlier (UInt16.toNat_inj.mp (heq.trans hordinal))
        simp only [hget, hword, hne, if_false, bind_ok_iff, exists_unit, refuseIf_ok_iff,
          okOr_ok_iff, pure_ok_iff, hfound, decodeDirection_stored, Except.ok.injEq,
          Option.some.injEq, exists_eq_left', hfresh, not_false_eq_true, true_and,
          decide_eq_true_eq]
        refine ⟨by omega, ?_⟩
        rw [hordinal, List.take_add_one, hget, Option.toList_some, List.map_append,
          decide_eq_false (by omega)]
        rfl
      · have hnone : index.fields[done.length]? = none := List.getElem?_eq_none hunused
        have hword : leAt (keySlotBytes none).val 0 2 = nullColumnOrdinal := by
          show leValue (leBytes 2 nullColumnOrdinal) = nullColumnOrdinal
          exact leValue_leBytes_of_lt (by decide)
        rw [hnone, if_pos hword, List.take_of_length_le hunused,
          List.take_of_length_le (hunused.trans (Nat.le_succ _)),
          decide_eq_true (Nat.lt_succ_of_le hunused)])
  obtain ⟨state, hstate, rfl⟩ := hloop
  rw [List.length_range, List.take_of_length_le hkey.length_le] at hstate
  exact ⟨_, hstate⟩

/-- A physical index the writer admits, whose references lie inside a file of `pageCount` pages. -/
structure AdmittedPhysical (spec : TableDefinitionSpec) (pageCount : ℕ)
    (index : PhysicalIndexSpec) :
    Prop where
  key : AdmittedKey spec.columns index.fields
  map_ne : index.usageMapPage ≠ 0
  map_le : index.usageMapPage ≤ maxU24Page
  root_ne : index.root ≠ 0
  root_le : index.root ≤ 2 ^ 32 - 1
  flags : spec.kind.admits index.flags = true
  map_lt : index.usageMapPage < pageCount
  root_lt : index.root < pageCount

/-- The flags the writer admits are ones the decoder supports. -/
theorem admits_raw {kind : TableDefinitionKind} {flags : PhysicalIndexFlagsSpec}
    (h : kind.admits flags = true) : flags.raw ∈ kind.supportedFlags := by
  revert h
  cases kind <;> cases flags <;> decide

/-- The record of a physical index is read back as this index. -/
theorem decodePhysical_written {spec : TableDefinitionSpec} {decoded : List ColumnDefinition}
    {pageCount : ℕ} (physicalIndex : ℕ) {index : PhysicalIndexSpec}
    (hmax : spec.columns.length ≤ maxColumnCount) (hdecoded : DescribesColumns spec.columns decoded)
    (h : AdmittedPhysical spec pageCount index) :
    ∃ definition, decodePhysical spec.kind pageCount decoded physicalIndex (physicalPrefix index)
        (physicalRecord index) = .ok definition ∧ DescribesPhysical index definition := by
  obtain ⟨unused, hfields⟩ := decodeKeySlots_written physicalIndex hmax hdecoded h.key
  have hmap : leAt (physicalRecord index).val 31 3 = index.usageMapPage :=
    leAt_physicalRecord_map index (lt_of_le_of_lt h.map_le (by decide))
  have hroot : leAt (physicalRecord index).val 34 4 = index.root :=
    leAt_physicalRecord_root index (lt_of_le_of_lt h.root_le (by decide))
  have hreference : ∀ {page : ℕ} {role : String}, page ≠ 0 → page < pageCount →
      checkPhysicalReference pageCount physicalIndex role page = .ok () := by
    intro page role hne hlt
    simp only [checkPhysicalReference, validateReference, bind_ok_iff, exists_unit, refuseIf_ok_iff,
      mapError_ok_iff, not_not]
    exact ⟨hne, hlt⟩
  have hnonempty : index.fields.map IndexFieldSpec.decoded ≠ [] :=
    fun hnil => h.key.nonempty (List.map_eq_nil_iff.mp hnil)
  refine ⟨{
    sourcedPrefix := physicalPrefix index, fields := index.fields.map IndexFieldSpec.decoded
    usageMap := { page := index.usageMapPage, row := index.usageMapRow }, root := index.root
    unique := index.flags.raw &&& uniqueFlag ≠ 0, required := index.flags.raw &&& requiredFlag ≠ 0
    rawFlags := index.flags.raw, rawRecord := physicalRecord index }, ?_, ?_⟩
  · simp only [decodePhysical, hfields, hmap, hroot, byteAt_physicalRecord_row,
      byteAt_physicalRecord_flags, bind_ok_iff, exists_unit, refuseIf_ok_iff, pure_ok_iff,
      Except.ok.injEq, exists_eq_left', hnonempty, not_false_eq_true, true_and, not_not,
      admits_raw h.flags, hreference h.map_ne h.map_lt, hreference h.root_ne h.root_lt]
  · refine ⟨rfl, rfl, decide_eq_true_iff, decide_eq_true_iff, rfl, rfl, ?_⟩
    show leValue (leBytes 4 index.entryCount.toNat) = index.entryCount.toNat
    exact leValue_leBytes_of_lt index.entryCount.toNat_lt

/-- The physical records are read back in their order. -/
theorem decodePhysicals_written {spec : TableDefinitionSpec} {context : IndexDecodeContext}
    (total : ℕ) (tail : List UInt8) (hkind : context.kind = spec.kind)
    (hmax : spec.columns.length ≤ maxColumnCount)
    (hdecoded : DescribesColumns spec.columns context.columns)
    (h : ∀ index ∈ spec.physicalIndexes, AdmittedPhysical spec context.pageCount index) :
    ∃ physical, (spec.physicalIndexes.map physicalPrefix).zipIdx.foldlM
        (decodeNextPhysical context total)
        ([], spec.physicalIndexes.flatMap (fun index => (physicalRecord index).val) ++ tail) =
          .ok (physical, tail) ∧
      List.Forall₂ DescribesPhysical spec.physicalIndexes physical := by
  -- one record after the other, over what is left of the bytes
  have hloop := exists_foldlM_read (f := decodeNextPhysical context total)
    (l := spec.physicalIndexes.zipIdx)
    (fun item : PhysicalIndexSpec × ℕ => (physicalPrefix item.1, item.2))
    (fun item => (physicalRecord item.1).val)
    (fun done physical => List.Forall₂ DescribesPhysical (done.map Prod.fst) physical) (s := [])
      tail
    .nil (by
      rintro done item rest physical remaining hsplit hphysical
      have hitem : item ∈ spec.physicalIndexes.zipIdx := by rw [hsplit]; simp
      have hindex : item.1 ∈ spec.physicalIndexes := by
        have := List.mem_map_of_mem (f := Prod.fst) hitem
        rwa [List.zipIdx_map_fst] at this
      obtain ⟨definition, hdefinition, hdescribes⟩ := decodePhysical_written
        item.2 hmax hdecoded (h item.1 hindex)
      refine ⟨physical ++ [definition], ?_, ?_⟩
      · simp only [decodeNextPhysical, bind_ok_iff, Prod.exists, take_ok_iff, pure_ok_iff]
        exact ⟨physicalRecord item.1, remaining, rfl, definition, hkind ▸ hdefinition, rfl⟩
      · rw [List.map_append]
        exact List.rel_append hphysical (.cons hdescribes .nil))
  -- prefixes and records are those of the numbered indexes
  have hkeys : spec.physicalIndexes.zipIdx.map (fun item => (physicalPrefix item.1, item.2)) =
      (spec.physicalIndexes.map physicalPrefix).zipIdx := by
    rw [List.zipIdx_map]
    rfl
  have hbytes : spec.physicalIndexes.zipIdx.flatMap (fun item => (physicalRecord item.1).val) =
      spec.physicalIndexes.flatMap fun index => (physicalRecord index).val := by
    have := congrArg (List.flatMap fun index => (physicalRecord index).val)
      (List.zipIdx_map_fst 0 spec.physicalIndexes)
    rwa [List.flatMap_map] at this
  rw [hkeys, hbytes, List.zipIdx_map_fst] at hloop
  exact hloop

/-! ## Logical indexes -/

/-- A decoded class that describes the class `kind`. -/
def DescribesKind : LogicalIndexKindSpec → IndexDefinitionKind → Prop
  | .ordinary, decoded => decoded = .ordinary
  | .primary, decoded => decoded = .primary
  | .relationship reference, decoded => ∃ found, decoded = .relationship found ∧
      found.side = reference.side ∧ found.relatedTable = reference.relatedTable ∧
      found.rawSelector = reference.rawSelector.toNat ∧
      found.rawRelationOrdinal = reference.relationOrdinal.toNat ∧
      found.cascadeUpdates = reference.cascadeUpdates ∧
      found.cascadeDeletes = reference.cascadeDeletes

/-- A logical index that describes `index`. -/
structure DescribesLogical (index : LogicalIndexSpec) (decoded : IndexDefinition) : Prop where
  name_eq : decoded.name = index.name
  physicalIndex_eq : decoded.physicalIndex = index.physicalIndex.toNat
  kind : DescribesKind index.kind decoded.kind

/-- A logical index the writer admits, whose related table lies inside a file of `pageCount`
pages. -/
structure AdmittedLogical (spec : TableDefinitionSpec) (pageCount : ℕ)
    (entry : LogicalIndexSpec × ℕ) : Prop where
  name_ne : entry.1.name ≠ []
  name_le : entry.1.name.length ≤ maxNameLen
  name_fresh : entry.1.name ∉ (spec.indexes.take entry.2).map LogicalIndexSpec.name
  physical : ∃ physical, spec.physicalIndexes[entry.1.physicalIndex.toNat]? = some physical ∧
    (entry.1.kind = .primary → physical.flags.raw = spec.kind.primaryFlags)
  primary : entry.1.kind = .primary →
    (spec.indexes.take entry.2).any (fun index => index.kind = .primary) = false
  related : ∀ reference, entry.1.kind = .relationship reference →
    reference.relatedTable ≠ 0 ∧ reference.relatedTable ≤ 2 ^ 32 - 1 ∧
      reference.relatedTable < pageCount

/-- The fields of an ordinary record. -/
theorem read_ordinaryRecord {physicalIndex : ℕ} (h : physicalIndex < 2 ^ 32)
    (logicalClass : UInt8) :
    LogicalFields.read (ordinaryRecord physicalIndex logicalClass) =
      { selector := physicalIndex, physicalOrdinal := physicalIndex, marker := 0
        relationOrdinal := 0xffffffff, related := 0, context := [4, 4], kind := logicalClass } := by
  have hindex : leValue (leBytes 4 physicalIndex) = physicalIndex := leValue_leBytes_of_lt h
  have hnone : leValue (leBytes 4 0xffffffff) = 0xffffffff := leValue_leBytes_of_lt (by decide)
  have hzero : leValue (leBytes 4 0) = 0 := leValue_leBytes_of_lt (by decide)
  show LogicalFields.mk (leValue (leBytes 4 physicalIndex)) (leValue (leBytes 4 physicalIndex)) 0
    (leValue (leBytes 4 0xffffffff)) (leValue (leBytes 4 0)) [4, 4] logicalClass = _
  rw [hindex, hnone, hzero]

/-- The fields of a relationship record. -/
theorem read_relationshipRecord {physicalIndex : ℕ} (h : physicalIndex < 2 ^ 32)
    {reference : RelationshipSpec} (hrelated : reference.relatedTable < 2 ^ 32) :
    LogicalFields.read (relationshipRecord physicalIndex reference) =
      { selector := reference.rawSelector.toNat, physicalOrdinal := physicalIndex
        marker := reference.side.marker, relationOrdinal := reference.relationOrdinal.toNat
        related := reference.relatedTable
        context := [boolByte reference.cascadeUpdates, boolByte reference.cascadeDeletes]
        kind := 2 } := by
  have hselector : leValue (leBytes 4 reference.rawSelector.toNat) = reference.rawSelector.toNat :=
    leValue_leBytes_of_lt reference.rawSelector.toNat_lt
  have hordinal : leValue (leBytes 4 reference.relationOrdinal.toNat) =
      reference.relationOrdinal.toNat := leValue_leBytes_of_lt reference.relationOrdinal.toNat_lt
  have hindex : leValue (leBytes 4 physicalIndex) = physicalIndex := leValue_leBytes_of_lt h
  have htable : leValue (leBytes 4 reference.relatedTable) = reference.relatedTable :=
    leValue_leBytes_of_lt hrelated
  show LogicalFields.mk (leValue (leBytes 4 reference.rawSelector.toNat))
    (leValue (leBytes 4 physicalIndex)) reference.side.marker
    (leValue (leBytes 4 reference.relationOrdinal.toNat))
      (leValue (leBytes 4 reference.relatedTable))
    [boolByte reference.cascadeUpdates, boolByte reference.cascadeDeletes] 2 = _
  rw [hselector, hordinal, hindex, htable]

/-- Every logical record names its physical index. -/
theorem physicalOrdinal_logicalRecord {index : LogicalIndexSpec}
    (hrelated : index.kind.relatedTable < 2 ^ 32) :
    (LogicalFields.read (logicalRecord index)).physicalOrdinal = index.physicalIndex.toNat := by
  have hindex : index.physicalIndex.toNat < 2 ^ 32 := index.physicalIndex.toNat_lt.trans (by decide)
  rcases index with ⟨name, physicalIndex, _ | _ | reference⟩
  · rw [logicalRecord, read_ordinaryRecord hindex]
  · rw [logicalRecord, read_ordinaryRecord hindex]
  · rw [logicalRecord, read_relationshipRecord hindex hrelated]

/-- The class of a logical record is read back as the class that was written. -/
theorem decodeLogicalKind_written {spec : TableDefinitionSpec} {context : IndexDecodeContext}
    {physical : List PhysicalIndexDefinition} {entry : LogicalIndexSpec × ℕ} {primarySeen : Bool}
    (hkind : context.kind = spec.kind)
    (hphysical : List.Forall₂ DescribesPhysical spec.physicalIndexes physical)
    (hseen : primarySeen = (spec.indexes.take entry.2).any fun index => index.kind = .primary)
    (h : AdmittedLogical spec context.pageCount entry) :
    ∃ kind, decodeLogicalKind context physical entry.2 primarySeen
        (LogicalFields.read (logicalRecord entry.1)) = .ok kind ∧
        DescribesKind entry.1.kind kind := by
  have hindex : entry.1.physicalIndex.toNat < 2 ^ 32 :=
    entry.1.physicalIndex.toNat_lt.trans (by decide)
  rcases hclass : entry.1.kind with _ | _ | reference
  · refine ⟨.ordinary, ?_, rfl⟩
    rw [logicalRecord, hclass, read_ordinaryRecord hindex]
    rfl
  · -- The physical index a primary index names carries the primary flags.
    obtain ⟨index, hget, hflags⟩ := h.physical
    obtain ⟨stored, hstored, hdescribes⟩ := Lookup.getElem?_of_forall₂ hphysical hget
    have hraw := hdescribes.rawFlags_eq.trans (hflags hclass)
    have hnone : primarySeen = false := hseen.trans (h.primary hclass)
    refine ⟨.primary, ?_, rfl⟩
    rw [logicalRecord, hclass, read_ordinaryRecord hindex, decodeLogicalKind, if_pos (Or.inr rfl),
      decodeOrdinary, hnone]
    simp only [bind_ok_iff, exists_unit, refuseIf_ok_iff, okOr_ok_iff, if_true, pure_ok_iff]
    refine ⟨by decide, by decide, by decide, stored, hstored, ?_, trivial⟩
    rw [hkind, hraw]
    exact fun hne => hne rfl
  · obtain ⟨hne, hle, hlt⟩ := h.related reference hclass
    have hrelated : reference.relatedTable < 2 ^ 32 := by
      show (reference.relatedTable : ℕ) < 2 ^ 32
      exact lt_of_le_of_lt hle (by decide)
    let found : RelationshipReference :=
      { side := reference.side, relatedTable := reference.relatedTable
        rawSelector := reference.rawSelector.toNat
        rawRelationOrdinal := reference.relationOrdinal.toNat
        rawContext := [boolByte reference.cascadeUpdates, boolByte reference.cascadeDeletes] }
    have hupdates : found.cascadeUpdates = reference.cascadeUpdates := by
      show decide (boolByte reference.cascadeUpdates = 1) = reference.cascadeUpdates
      cases reference.cascadeUpdates <;> rfl
    have hdeletes : found.cascadeDeletes = reference.cascadeDeletes := by
      show decide (boolByte reference.cascadeDeletes = 1) = reference.cascadeDeletes
      cases reference.cascadeDeletes <;> rfl
    refine ⟨.relationship found, ?_, found, rfl, rfl, rfl, rfl, rfl, hupdates, hdeletes⟩
    have hside : ∀ fields : LogicalFields, fields.marker = reference.side.marker →
        decodeSide entry.2 fields = .ok reference.side := by
      intro fields hmarker
      rw [decodeSide, hmarker]
      cases reference.side <;> rfl
    have hbool : ∀ b : Bool, boolByte b ≤ 1 := by decide
    have hother : ¬((2 : UInt8) = 0 ∨ (2 : UInt8) = 1) := by decide
    rw [logicalRecord, hclass, read_relationshipRecord hindex hrelated, decodeLogicalKind,
      if_neg hother, if_pos rfl, decodeRelationship]
    simp only [bind_ok_iff, exists_unit, refuseIf_ok_iff, mapError_ok_iff, validateReference,
      not_not, pure_ok_iff]
    refine ⟨?_, reference.side, hside _ rfl, hne, hlt, rfl⟩
    simpa using ⟨hbool _, hbool _⟩

/-- The logical records and the names after them are taken apart again. -/
theorem takeLogicals_written {total : ℕ} (indexes : List LogicalIndexSpec) (tail : List UInt8) :
    (List.range indexes.length).foldlM (takeLogical total)
      ([], indexes.flatMap (fun index => (logicalRecord index).val) ++ tail) =
        .ok (indexes.map logicalRecord, tail) := by
  have hloop := exists_foldlM_read (f := takeLogical total) (l := indexes.zipIdx)
    (fun item : LogicalIndexSpec × ℕ => item.2) (fun item => (logicalRecord item.1).val)
    (fun done records => records = done.map fun item => logicalRecord item.1) (s := []) tail rfl (by
      rintro done item rest records remaining - rfl
      refine ⟨_, ?_, rfl⟩
      simp only [takeLogical, bind_ok_iff, Prod.exists, take_ok_iff, pure_ok_iff, List.map_append]
      exact ⟨logicalRecord item.1, remaining, rfl, rfl⟩)
  obtain ⟨records, hloop, rfl⟩ := hloop
  have hkeys : indexes.zipIdx.map (fun item => item.2) = List.range indexes.length := by
    rw [List.range_eq_range', ← List.zipIdx_map_snd]
  have hbytes : indexes.zipIdx.flatMap (fun item => (logicalRecord item.1).val) =
      indexes.flatMap fun index => (logicalRecord index).val := by
    have := congrArg (List.flatMap fun index => (logicalRecord index).val)
      (List.zipIdx_map_fst 0 indexes)
    rwa [List.flatMap_map] at this
  have hrecords : indexes.zipIdx.map (fun item => logicalRecord item.1) =
      indexes.map logicalRecord := by
    have := congrArg (List.map logicalRecord) (List.zipIdx_map_fst 0 indexes)
    rwa [List.map_map] at this
  rw [hkeys, hbytes, hrecords] at hloop
  exact hloop

/-- The names are read back in order. -/
theorem takeLogicalNames_written {spec : TableDefinitionSpec} {pageCount total : ℕ}
    (tail : List UInt8)
    (h : ∀ entry ∈ spec.indexes.zipIdx, AdmittedLogical spec pageCount entry) :
    (List.range spec.indexes.length).foldlM (takeLogicalName total)
      ([], spec.indexes.flatMap (fun index => nameBytes index.name) ++ tail) =
        .ok (spec.indexes.map LogicalIndexSpec.name, tail) := by
  have hloop := exists_foldlM_read (f := takeLogicalName total) (l := spec.indexes.zipIdx)
    (fun item : LogicalIndexSpec × ℕ => item.2) (fun item => nameBytes item.1.name)
    (fun done names => names = done.map fun item => item.1.name) (s := []) tail rfl (by
      rintro done item rest names remaining hsplit rfl
      obtain ⟨-, -, htake⟩ := Lookup.zipIdx_split hsplit
      have hadmitted := h item (by rw [hsplit]; simp)
      have hfresh : item.1.name ∉ done.map fun item => item.1.name := by
        have := hadmitted.name_fresh
        rwa [htake, List.map_map] at this
      refine ⟨_, ?_, rfl⟩
      simp only [takeLogicalName, bind_ok_iff, exists_unit, refuseIf_ok_iff, Prod.exists,
        takeName_ok_iff, pure_ok_iff, List.map_append]
      exact ⟨item.1.name, remaining, ⟨Nat.lt_succ_of_le hadmitted.name_le, rfl⟩, hadmitted.name_ne,
        hfresh, rfl⟩)
  obtain ⟨names, hloop, rfl⟩ := hloop
  have hkeys : spec.indexes.zipIdx.map (fun item => item.2) = List.range spec.indexes.length := by
    rw [List.range_eq_range', ← List.zipIdx_map_snd]
  have hbytes : spec.indexes.zipIdx.flatMap (fun item => nameBytes item.1.name) =
      spec.indexes.flatMap fun index => nameBytes index.name := by
    have := congrArg (List.flatMap fun index => nameBytes index.name)
      (List.zipIdx_map_fst 0 spec.indexes)
    rwa [List.flatMap_map] at this
  have hnames : spec.indexes.zipIdx.map (fun item => item.1.name) =
      spec.indexes.map LogicalIndexSpec.name := by
    have := congrArg (List.map LogicalIndexSpec.name) (List.zipIdx_map_fst 0 spec.indexes)
    rwa [List.map_map] at this
  rw [hkeys, hbytes, hnames] at hloop
  exact hloop

/-- The logical indexes are put together from their records and names. -/
theorem decodeLogicals_written {spec : TableDefinitionSpec} {context : IndexDecodeContext}
    {physical : List PhysicalIndexDefinition} (hkind : context.kind = spec.kind)
    (hcount : context.physicalCount = spec.physicalIndexes.length)
    (hphysical : List.Forall₂ DescribesPhysical spec.physicalIndexes physical)
    (h : ∀ entry ∈ spec.indexes.zipIdx, AdmittedLogical spec context.pageCount entry) :
    ∃ scan, ((spec.indexes.map logicalRecord).zip
      (spec.indexes.map LogicalIndexSpec.name)).zipIdx.foldlM
        (decodeLogical context physical) { logical := [], primarySeen := false } = .ok scan ∧
      List.Forall₂ DescribesLogical spec.indexes scan.logical := by
  have hentries : ((spec.indexes.map logicalRecord).zip
      (spec.indexes.map LogicalIndexSpec.name)).zipIdx =
      spec.indexes.zipIdx.map fun item => ((logicalRecord item.1, item.1.name), item.2) := by
    rw [List.zip_map', List.zipIdx_map]
    rfl
  rw [hentries, List.foldlM_map]
  -- the scan has described the indexes so far, and knows whether a primary key was one
  have hloop := exists_foldlM_ok (l := spec.indexes.zipIdx)
    (f := fun scan item => decodeLogical context physical scan
      ((logicalRecord item.1, item.1.name), item.2))
    (fun done scan => List.Forall₂ DescribesLogical (done.map Prod.fst) scan.logical ∧
      scan.primarySeen = (done.map Prod.fst).any fun index => index.kind = .primary)
    (s := { logical := [], primarySeen := false }) ⟨.nil, rfl⟩ (by
      rintro done item rest scan hsplit ⟨hlogical, hseen⟩
      obtain ⟨-, -, htake⟩ := Lookup.zipIdx_split hsplit
      have hadmitted := h item (by rw [hsplit]; simp)
      obtain ⟨kind, hdecode, hdescribes⟩ := decodeLogicalKind_written hkind hphysical
        (htake ▸ hseen) hadmitted
      obtain ⟨index, hget, -⟩ := hadmitted.physical
      have hlt := (List.getElem?_eq_some_iff.mp hget).1
      -- the field of the related table has room for an admitted page
      have hrelated : item.1.kind.relatedTable < 2 ^ 32 := by
        rcases hclass : item.1.kind with _ | _ | reference
        · exact Nat.two_pow_pos 32
        · exact Nat.two_pow_pos 32
        · obtain ⟨-, hle, -⟩ := hadmitted.related reference hclass
          exact lt_of_le_of_lt hle (by decide)
      have hordinal := physicalOrdinal_logicalRecord hrelated
      refine ⟨{ logical := scan.logical ++ [{ name := item.1.name
                                              physicalIndex := item.1.physicalIndex.toNat, kind
                                              rawRecord := logicalRecord item.1 }]
                primarySeen := scan.primarySeen || decide (kind = .primary) }, ?_, ?_, ?_⟩
      · simp only [decodeLogical, hordinal, validatePhysicalOrdinal, hdecode, hcount, bind_ok_iff,
          exists_unit, refuseIf_ok_iff, not_or, not_not, not_le, pure_ok_iff, Except.ok.injEq,
          exists_eq_left', and_true]
        exact ⟨item.1.physicalIndex.toNat_lt, hlt⟩
      · rw [List.map_append]
        exact List.rel_append hlogical (.cons ⟨rfl, rfl, hdescribes⟩ .nil)
      · -- the decoded kind is primary where the stored one is
        have hprimary : decide (kind = .primary) = decide (item.1.kind = .primary) := by
          rcases hclass : item.1.kind with _ | _ | reference
          · rw [hclass] at hdescribes
            rw [show kind = .ordinary from hdescribes]
            rfl
          · rw [hclass] at hdescribes
            rw [show kind = .primary from hdescribes]
            rfl
          · rw [hclass] at hdescribes
            obtain ⟨found, rfl, -⟩ := hdescribes
            rfl
        rw [List.map_append, List.any_append, ← hseen, hprimary]
        simp)
  obtain ⟨scan, hscan, hlogical, -⟩ := hloop
  rw [List.zipIdx_map_fst] at hlogical
  exact ⟨scan, hscan, hlogical⟩

/-- The index sections of a definition are read back as its indexes. -/
theorem decodeIndexes_written {spec : TableDefinitionSpec} {context : IndexDecodeContext}
    (total : ℕ) (tail : List UInt8) (hkind : context.kind = spec.kind)
    (hcount : context.physicalCount = spec.physicalIndexes.length)
    (hlogicalCount : context.logicalCount = spec.indexes.length)
    (hmax : spec.columns.length ≤ maxColumnCount)
    (hdecoded : DescribesColumns spec.columns context.columns)
    (hphysical : ∀ index ∈ spec.physicalIndexes, AdmittedPhysical spec context.pageCount index)
    (hlogical : ∀ entry ∈ spec.indexes.zipIdx, AdmittedLogical spec context.pageCount entry)
    (hreferenced : ∀ ordinal < spec.physicalIndexes.length,
      ∃ index ∈ spec.indexes, index.physicalIndex.toNat = ordinal) :
    ∃ physical logical, decodeIndexes context total (spec.physicalIndexes.map physicalPrefix)
        (spec.physicalIndexes.flatMap (fun index => (physicalRecord index).val) ++
          (spec.indexes.flatMap (fun index => (logicalRecord index).val) ++
            (spec.indexes.flatMap (fun index => nameBytes index.name) ++ tail))) =
          .ok ((physical, logical), tail) ∧
      List.Forall₂ DescribesPhysical spec.physicalIndexes physical ∧
      List.Forall₂ DescribesLogical spec.indexes logical := by
  obtain ⟨physical, hphysicalRead, hphysical'⟩ := decodePhysicals_written total
    (spec.indexes.flatMap (fun index => (logicalRecord index).val) ++
      (spec.indexes.flatMap (fun index => nameBytes index.name) ++ tail)) hkind hmax hdecoded
        hphysical
  obtain ⟨scan, hscan, hlogical'⟩ := decodeLogicals_written hkind hcount hphysical' hlogical
  refine ⟨physical, scan.logical, ?_, hphysical', hlogical'⟩
  have hall : checkReferenced context.physicalCount scan.logical = .ok () := by
    have hnone : (List.range context.physicalCount).find? (fun ordinal =>
        ¬∃ index ∈ scan.logical, index.physicalIndex = ordinal) = none := by
      rw [List.find?_eq_none]
      intro ordinal hordinal
      rw [decide_eq_true_eq, not_not]
      obtain ⟨index, hindex, heq⟩ := hreferenced ordinal (hcount ▸ List.mem_range.mp hordinal)
      have hmem := List.mem_map_of_mem (f := fun index => index.physicalIndex.toNat) hindex
      rw [Lookup.map_eq_of_forall₂ (g := IndexDefinition.physicalIndex)
        (fun _ _ h => h.physicalIndex_eq.symm) hlogical'] at hmem
      obtain ⟨found, hfound, hfoundEq⟩ := List.mem_map.mp hmem
      exact ⟨found, hfound, hfoundEq.trans heq⟩
    rw [checkReferenced, hnone]
  simp only [decodeIndexes, hphysicalRead, hlogicalCount, takeLogicals_written,
    takeLogicalNames_written tail hlogical, hscan, hall, bind_ok_iff, pure_ok_iff, Except.ok.injEq,
    exists_eq_left', exists_unit, true_and]

end Jet3
