import Jet3.Definition.Table

/-!
# The sections of a table definition

A decoded definition keeps every record and name it was read from, so its bytes are recovered by
writing the sections one after another.

* `TableDefinition.bytes` are the sections of a definition in their order;
* `decodeDefinition_bytes` says that they are the bytes the definition was decoded from.
-/

namespace Jet3

open Outcome Reader

/-- The sections of a definition, in the order they are stored in. -/
def TableDefinition.bytes (table : TableDefinition) : List UInt8 :=
  table.rawHeader.val ++
    (table.physicalIndexes.flatMap (fun index => index.sourcedPrefix.val) ++
      (table.columns.flatMap (fun column => column.rawRecord.val) ++
        (table.columns.flatMap (fun column => nameBytes column.name) ++
          (table.physicalIndexes.flatMap (fun index => index.rawRecord.val) ++
            (table.indexes.flatMap (fun index => index.rawRecord.val) ++
              (table.indexes.flatMap (fun index => nameBytes index.name) ++
                (table.rawSuffix ++ terminator)))))))

/-! ## Columns -/

/-- A decoded record adds one column, which keeps the record. -/
theorem decodeRecord_columns {context : ColumnContext} {ordinal : ℕ}
    {record : Bytes columnRecordLen}
    {scan scan' : ColumnScan} (h : decodeRecord context ordinal record scan = .ok scan') :
    ∃ column, scan'.columns = scan.columns ++ [column] ∧ column.rawRecord = record := by
  simp only [decodeRecord, bind_ok_iff, pure_ok_iff, Prod.exists] at h
  obtain ⟨_, -, _, -, _, -, _, -, _, -, _, -, _, _, -, rfl⟩ := h
  exact ⟨_, rfl, rfl⟩

/-- The decoded records are the bytes that were read. -/
theorem decodeRecords_bytes {context : ColumnContext} {total : ℕ} {scan scan' : ColumnScan}
    {ordinals : List ℕ} {rest rest' : List UInt8} (hempty : scan.columns = [])
    (h : ordinals.foldlM (decodeNextRecord context total) (scan, rest) = .ok (scan', rest')) :
    rest = scan'.columns.flatMap (fun column => column.rawRecord.val) ++ rest' := by
  refine foldlM_ok_induction
    (fun _ state => rest = state.1.columns.flatMap (fun column => column.rawRecord.val) ++ state.2)
    (by simp [hempty]) ?_ h
  intro _ ordinal _ state state' _ hstate hstep
  simp only [decodeNextRecord, bind_ok_iff, pure_ok_iff, Prod.exists, take_ok_iff] at hstep
  obtain ⟨record, rest₁, hrest, scan₁, hrecord, rfl⟩ := hstep
  obtain ⟨column, hcolumns, hraw⟩ := decodeRecord_columns hrecord
  rw [hstate, hrest, hcolumns]
  simp [hraw]

/-- So are the names of the columns. -/
theorem decodeColumnNames_bytes {total : ℕ} {raws : List RawColumn}
    {columns : List ColumnDefinition} {rest rest' : List UInt8}
    (h : raws.foldlM (decodeColumnName total) ([], rest) = .ok (columns, rest')) :
    columns.map ColumnDefinition.toRawColumn = raws ∧
      (∀ column ∈ columns, column.name.length < 256) ∧
      rest = columns.flatMap (fun column => nameBytes column.name) ++ rest' := by
  refine foldlM_ok_induction (fun done state =>
    state.1.map ColumnDefinition.toRawColumn = done ∧
      (∀ column ∈ state.1, column.name.length < 256) ∧
      rest = state.1.flatMap (fun column => nameBytes column.name) ++ state.2)
    (by simp) ?_ h
  rintro done raw _ state state' - ⟨hraws, hnames, hrest⟩ hstep
  simp only [decodeColumnName, bind_ok_iff, exists_unit, refuseIf_ok_iff, pure_ok_iff, Prod.exists,
    takeName_ok_iff] at hstep
  obtain ⟨name, rest₁, ⟨hlen, hname⟩, -, rfl⟩ := hstep
  refine ⟨by simp [hraws], ?_, ?_⟩
  · intro column hcolumn
    rcases List.mem_append.mp hcolumn with hold | hnew
    · exact hnames column hold
    · rw [List.mem_singleton.mp hnew]
      exact hlen
  · rw [hrest, hname]
    simp

/-- The columns, records and names, are the bytes that were read. -/
theorem decodeColumns_bytes {context : ColumnContext} {total : ℕ} {columns : List ColumnDefinition}
    {rest rest' : List UInt8} (h : decodeColumns context total rest = .ok (columns, rest')) :
    (∀ column ∈ columns, column.name.length < 256) ∧
      rest = columns.flatMap (fun column => column.rawRecord.val) ++
        (columns.flatMap (fun column => nameBytes column.name) ++ rest') := by
  simp only [decodeColumns, bind_ok_iff, exists_unit, Prod.exists] at h
  obtain ⟨scan, rest₁, hrecords, -, hnames⟩ := h
  obtain ⟨hraws, hlen, hrest⟩ := decodeColumnNames_bytes hnames
  refine ⟨hlen, ?_⟩
  rw [decodeRecords_bytes rfl hrecords, hrest, ← hraws, List.flatMap_map]

/-! ## Indexes -/

/-- So are the physical indexes, whose prefixes stand before the columns. -/
theorem decodePhysicals_bytes {context : IndexDecodeContext} {total : ℕ}
    {prefixes : List (Bytes physicalPrefixLen)} {physical : List PhysicalIndexDefinition}
    {rest rest' : List UInt8}
    (h : prefixes.zipIdx.foldlM (decodeNextPhysical context total) ([], rest) =
      .ok (physical, rest')) :
    physical.map PhysicalIndexDefinition.sourcedPrefix = prefixes ∧
      rest = physical.flatMap (fun index => index.rawRecord.val) ++ rest' := by
  have key : physical.map PhysicalIndexDefinition.sourcedPrefix = prefixes.zipIdx.map Prod.fst ∧
      rest = physical.flatMap (fun index => index.rawRecord.val) ++ rest' := by
    refine foldlM_ok_induction (fun done state =>
      state.1.map PhysicalIndexDefinition.sourcedPrefix = done.map Prod.fst ∧
        rest = state.1.flatMap (fun index => index.rawRecord.val) ++ state.2) (by simp) ?_ h
    rintro done entry _ state state' - ⟨hprefixes, hrest⟩ hstep
    simp only [decodeNextPhysical, bind_ok_iff, pure_ok_iff, Prod.exists, take_ok_iff] at hstep
    obtain ⟨record, rest₁, hrecord, index, hindex, rfl⟩ := hstep
    simp only [decodePhysical, bind_ok_iff, pure_ok_iff, Prod.exists] at hindex
    obtain ⟨_, _, -, _, -, _, -, _, -, _, -, rfl⟩ := hindex
    refine ⟨by simp [hprefixes], ?_⟩
    rw [hrest, hrecord]
    simp
  rwa [List.zipIdx_map_fst] at key

/-- So are the logical records. -/
theorem takeLogicals_bytes {total : ℕ} {ordinals : List ℕ} {records : List (Bytes logicalRecordLen)}
    {rest rest' : List UInt8}
    (h : ordinals.foldlM (takeLogical total) ([], rest) = .ok (records, rest')) :
    records.length = ordinals.length ∧ rest = records.flatMap Subtype.val ++ rest' := by
  refine foldlM_ok_induction (fun done state => state.1.length = done.length ∧
    rest = state.1.flatMap Subtype.val ++ state.2) (by simp) ?_ h
  rintro done _ _ state state' - ⟨hlen, hrest⟩ hstep
  simp only [takeLogical, bind_ok_iff, pure_ok_iff, Prod.exists, take_ok_iff] at hstep
  obtain ⟨record, rest₁, hrecord, rfl⟩ := hstep
  refine ⟨by simp [hlen], ?_⟩
  rw [hrest, hrecord]
  simp

/-- So are the names of the indexes. -/
theorem takeLogicalNames_bytes {total : ℕ} {ordinals : List ℕ} {names : List (List UInt8)}
    {rest rest' : List UInt8}
    (h : ordinals.foldlM (takeLogicalName total) ([], rest) = .ok (names, rest')) :
    names.length = ordinals.length ∧ (∀ name ∈ names, name.length < 256) ∧
      rest = names.flatMap nameBytes ++ rest' := by
  refine foldlM_ok_induction (fun done state => state.1.length = done.length ∧
    (∀ name ∈ state.1, name.length < 256) ∧ rest = state.1.flatMap nameBytes ++ state.2)
    (by simp) ?_ h
  rintro done _ _ state state' - ⟨hlen, hnames, hrest⟩ hstep
  simp only [takeLogicalName, bind_ok_iff, exists_unit, refuseIf_ok_iff, pure_ok_iff, Prod.exists,
    takeName_ok_iff] at hstep
  obtain ⟨name, rest₁, ⟨hlt, hname⟩, -, -, rfl⟩ := hstep
  refine ⟨by simp [hlen], ?_, ?_⟩
  · intro other hother
    rcases List.mem_append.mp hother with hold | hnew
    · exact hnames other hold
    · rw [List.mem_singleton.mp hnew]
      exact hlt
  · rw [hrest, hname]
    simp

/-- The logical indexes keep their records and names. -/
theorem decodeLogicals_records {context : IndexDecodeContext}
    {physical : List PhysicalIndexDefinition} {scan : LogicalScan} {primarySeen : Bool}
    {entries : List ((Bytes logicalRecordLen × List UInt8) × ℕ)}
    (h : entries.foldlM (decodeLogical context physical) { logical := [], primarySeen } =
      .ok scan) :
    scan.logical.map (fun index => (index.rawRecord, index.name)) = entries.map Prod.fst := by
  refine foldlM_ok_induction (fun done scan =>
    scan.logical.map (fun index => (index.rawRecord, index.name)) = done.map Prod.fst)
    rfl ?_ h
  rintro done entry _ state state' - hstate hstep
  simp only [decodeLogical, bind_ok_iff, pure_ok_iff] at hstep
  obtain ⟨_, -, _, -, rfl⟩ := hstep
  simp [hstate]

/-- All indexes together are the bytes that were read. -/
theorem decodeIndexes_bytes {context : IndexDecodeContext} {total : ℕ}
    {prefixes : List (Bytes physicalPrefixLen)} {physical : List PhysicalIndexDefinition}
    {indexes : List IndexDefinition} {rest rest' : List UInt8}
    (h : decodeIndexes context total prefixes rest = .ok ((physical, indexes), rest')) :
    physical.map PhysicalIndexDefinition.sourcedPrefix = prefixes ∧
      indexes.length = context.logicalCount ∧ (∀ index ∈ indexes, index.name.length < 256) ∧
      rest = physical.flatMap (fun index => index.rawRecord.val) ++
        (indexes.flatMap (fun index => index.rawRecord.val) ++
          (indexes.flatMap (fun index => nameBytes index.name) ++ rest')) := by
  simp only [decodeIndexes, bind_ok_iff, pure_ok_iff, Prod.exists, Prod.mk.injEq] at h
  obtain ⟨_, rest₁, hphysical, records, rest₂, hrecords, names, rest₃, hnames, scan, hscan, _, -,
    ⟨rfl, rfl⟩, rfl⟩ := h
  obtain ⟨hprefixes, hrest⟩ := decodePhysicals_bytes hphysical
  obtain ⟨hrecordCount, hrest₁⟩ := takeLogicals_bytes hrecords
  obtain ⟨hnameCount, hnameLen, hrest₂⟩ := takeLogicalNames_bytes hnames
  have hpairs := decodeLogicals_records hscan
  rw [List.zipIdx_map_fst] at hpairs
  have hsame : records.length = names.length := by rw [hrecordCount, hnameCount]
  have hraws : scan.logical.map IndexDefinition.rawRecord = records := by
    have := congrArg (List.map Prod.fst) hpairs
    rwa [List.map_map, List.map_fst_zip hsame.le] at this
  have hstored : scan.logical.map IndexDefinition.name = names := by
    have := congrArg (List.map Prod.snd) hpairs
    rwa [List.map_map, List.map_snd_zip hsame.ge] at this
  refine ⟨hprefixes, ?_, ?_, ?_⟩
  · rw [← List.length_map IndexDefinition.rawRecord, hraws, hrecordCount, List.length_range]
  · intro index hindex
    exact hnameLen _ (hstored ▸ List.mem_map_of_mem hindex)
  · rw [hrest, hrest₁, hrest₂, ← hraws, ← hstored, List.flatMap_map, List.flatMap_map]

/-! ## The definition -/

/-- The prefixes are the bytes that were read. -/
theorem takePhysicalPrefixes_bytes {total count : ℕ} {prefixes : List (Bytes physicalPrefixLen)}
    {rest rest' : List UInt8} (h : takePhysicalPrefixes total count rest = .ok (prefixes, rest')) :
    prefixes.length = count ∧ rest = prefixes.flatMap Subtype.val ++ rest' := by
  obtain ⟨_, -, h⟩ := bind_ok_iff.mp h
  have key : prefixes.length = (List.range count).length ∧
      rest = prefixes.flatMap Subtype.val ++ rest' := by
    refine foldlM_ok_induction (fun done state => state.1.length = done.length ∧
      rest = state.1.flatMap Subtype.val ++ state.2) (by simp) ?_ h
    rintro done _ _ state state' - ⟨hlen, hrest⟩ hstep
    simp only [takePhysicalPrefix, bind_ok_iff, pure_ok_iff, Prod.exists, take_ok_iff] at hstep
    obtain ⟨record, rest₁, hrecord, rfl⟩ := hstep
    refine ⟨by simp [hlen], ?_⟩
    rw [hrest, hrecord]
    simp
  rwa [List.length_range] at key

/-- The bytes behind the indexes end in the terminator. -/
theorem splitSuffix_ok_iff {total : ℕ} {rest suffix : List UInt8} :
    splitSuffix total rest = .ok suffix ↔ rest = suffix ++ terminator := by
  simp only [splitSuffix, bind_ok_iff, exists_unit, refuseIf_ok_iff, not_not, ne_eq, pure_ok_iff]
  constructor
  · rintro ⟨-, hterminator, rfl⟩
    rw [← hterminator, List.take_append_drop]
  · rintro rfl
    have hlen : (suffix ++ terminator).length - terminatorLen = suffix.length := by
      simp [terminator, terminatorLen]
    rw [hlen, List.drop_left, List.take_left]
    exact ⟨by simp [terminator, terminatorLen], rfl, rfl⟩

/-- The sections of a decoded definition are the bytes it was decoded from, and its counts are those
of its header. -/
theorem decodeDefinition_bytes {bytes : List UInt8} {root : PageNumber} {maps : TableMapLocations}
    {pageCount : ℕ} {table : TableDefinition}
    (h : decodeDefinition bytes root maps pageCount = .ok table) :
    bytes = table.bytes ∧
      leAt table.rawHeader.val logicalIndexCountField 2 = table.indexes.length ∧
      leAt table.rawHeader.val physicalIndexCountField 2 = table.physicalIndexes.length ∧
      (∀ column ∈ table.columns, column.name.length < 256) ∧
      (∀ index ∈ table.indexes, index.name.length < 256) := by
  simp only [decodeDefinition, bind_ok_iff, mapError_ok_iff, pure_ok_iff, Prod.exists, take_ok_iff]
    at h
  obtain ⟨rawHeader, rest, hheader, _, -, _, -, prefixes, rest₁, hprefixes, columns, rest₂,
    hcolumns, physical, indexes, rest₃, hindexes, suffix, hsuffix, _, -, rfl⟩ := h
  obtain ⟨hprefixCount, hrest⟩ := takePhysicalPrefixes_bytes hprefixes
  obtain ⟨hcolumnNames, hrest₁⟩ := decodeColumns_bytes hcolumns
  obtain ⟨hsourced, hlogical, hindexNames, hrest₂⟩ := decodeIndexes_bytes hindexes
  have hrest₃ := splitSuffix_ok_iff.mp hsuffix
  refine ⟨?_, hlogical.symm, ?_, hcolumnNames, hindexNames⟩
  · rw [hheader, hrest, hrest₁, hrest₂, hrest₃, ← hsourced, List.flatMap_map]
    rfl
  · rw [← hprefixCount, ← hsourced, List.length_map]

end Jet3
