import Jet3.Definition.IndexRoundTrip
import Jet3.Definition.Pieces
import Jet3.Definition.Sections

/-!
# Reading back a table definition

Every definition the writer encodes is one the reader decodes, and what it decodes describes the
specification: its columns with their placement, its indexes, its long-value map groups, its two
maps and its row count.

* `Describes` says which definition describes a specification;
* `decodeDefinition_encodeTableDefinition` is the round trip.
-/

namespace Jet3

open Outcome Reader

/-! ## Long-value map groups -/

/-- A map group that describes `map`. -/
structure DescribesMap (map : LongValueMapSpec) (decoded : LongValueMapDefinition) : Prop where
  column_eq : decoded.column = map.column.toNat
  owned_eq : decoded.owned = map.owned
  available_eq : decoded.available = map.available

/-- A map reference the writer admits, inside a file of `pageCount` pages. -/
structure AdmittedLocator (pageCount : ℕ) (locator : MapRowLocator) : Prop where
  page_ne : locator.page ≠ 0
  page_le : locator.page ≤ maxU24Page
  page_lt : locator.page < pageCount

/-- The map groups the writer admits: one for each long-value column and none for another. -/
structure AdmittedMaps (spec : TableDefinitionSpec) (pageCount : ℕ) : Prop where
  column : ∀ map ∈ spec.longValueMaps, ∃ column, spec.columns[map.column.toNat]? = some column ∧
    column.physicalType.isLongValue = true
  fresh : ∀ entry ∈ spec.longValueMaps.zipIdx, ∀ earlier ∈ spec.longValueMaps.take entry.2,
    earlier.column ≠ entry.1.column
  owned : ∀ map ∈ spec.longValueMaps, AdmittedLocator pageCount map.owned
  available : ∀ map ∈ spec.longValueMaps, AdmittedLocator pageCount map.available
  covered : ∀ entry ∈ spec.columns.zipIdx, entry.1.physicalType.isLongValue = true →
    ∃ map ∈ spec.longValueMaps, map.column.toNat = entry.2

/-- A stored locator is decoded as itself. -/
theorem decodeLocator_mapLocatorBytes {locator : MapRowLocator} (h : locator.page ≤ maxU24Page) :
    decodeLocator (mapLocatorBytes locator).val = locator := by
  have hpage : leValue (leBytes 3 locator.page) = locator.page :=
    leValue_leBytes_of_lt (lt_of_le_of_lt h (by decide))
  show MapRowLocator.mk (leValue (leBytes 3 locator.page)) locator.row = locator
  rw [hpage]

/-- The groups are cut apart as they were written. -/
theorem mapGroup_written (maps : List LongValueMapSpec) :
    (List.range maps.length).map (mapGroup (maps.flatMap fun map => (mapGroupBytes map).val)) =
      maps.map fun map => (mapGroupBytes map).val := by
  refine List.ext_getElem (by simp) fun n hn hn' => ?_
  rw [List.getElem_map, List.getElem_map, List.getElem_range]
  have hlt : n < maps.length := by simpa using hn'
  have hpiece := take_drop_flatMap (g := fun map => (mapGroupBytes map).val)
    (fun map => (mapGroupBytes map).property) (List.getElem?_eq_getElem hlt) []
  rwa [List.append_nil] at hpiece

/-- An admitted locator passes the decoder's check. -/
theorem validateLocator_ok {pageCount ordinal : ℕ} {role : String} {locator : MapRowLocator}
    (h : AdmittedLocator pageCount locator) :
    validateLocator pageCount ordinal role locator = .ok () := by
  simp only [validateLocator, validateReference, bind_ok_iff, exists_unit, refuseIf_ok_iff,
    mapError_ok_iff, not_not]
  exact ⟨h.page_ne, h.page_lt⟩

/-- The suffix of a definition is read back as its map groups. -/
theorem decodeLongValueMaps_written {spec : TableDefinitionSpec} {pageCount : ℕ}
    {decoded : List ColumnDefinition} (hdecoded : DescribesColumns spec.columns decoded)
    (h : AdmittedMaps spec pageCount) :
    ∃ maps, decodeLongValueMaps pageCount decoded
        (spec.longValueMaps.flatMap fun map => (mapGroupBytes map).val) = .ok maps ∧
      List.Forall₂ DescribesMap spec.longValueMaps maps := by
  have hlen : (spec.longValueMaps.flatMap fun map => (mapGroupBytes map).val).length =
      spec.longValueMaps.length * longValueMapGroupLen := by
    simp [List.length_flatMap, (mapGroupBytes _).property]
  -- group by group: the column is a long one, and has no group yet
  have hloop := exists_foldlM_ok (l := spec.longValueMaps.zipIdx)
    (f := fun maps item =>
      decodeMapGroup pageCount decoded maps ((mapGroupBytes item.1).val, item.2))
    (fun done maps => List.Forall₂ DescribesMap (done.map Prod.fst) maps) (s := []) .nil (by
      rintro done item rest maps hsplit hmaps
      have hmem : item ∈ spec.longValueMaps.zipIdx := by rw [hsplit]; simp
      have hmap : item.1 ∈ spec.longValueMaps := by
        have := List.mem_map_of_mem (f := Prod.fst) hmem
        rwa [List.zipIdx_map_fst] at this
      obtain ⟨-, -, htake⟩ := Lookup.zipIdx_split hsplit
      obtain ⟨column, hget, hlong⟩ := h.column item.1 hmap
      obtain ⟨found, hfound, hordinal, htype⟩ := hdecoded.find? hget
      have hword : leAt (mapGroupBytes item.1).val 0 2 = item.1.column.toNat := by
        show leValue (leBytes 2 item.1.column.toNat) = item.1.column.toNat
        exact leValue_leBytes_of_lt item.1.column.toNat_lt
      have howned : decodeLocator (((mapGroupBytes item.1).val.drop 2).take 4) = item.1.owned :=
        decodeLocator_mapLocatorBytes (h.owned _ hmap).page_le
      have havailable : decodeLocator (((mapGroupBytes item.1).val.drop 6).take 4) =
          item.1.available := decodeLocator_mapLocatorBytes (h.available _ hmap).page_le
      have hfresh : ¬∃ map ∈ maps, map.column = item.1.column.toNat := by
        rintro ⟨map, hmapMem, heq⟩
        have hcolumn := List.mem_map_of_mem (f := LongValueMapDefinition.column) hmapMem
        rw [← Lookup.map_eq_of_forall₂ (f := fun map : LongValueMapSpec => map.column.toNat)
          (fun _ _ h => h.column_eq.symm) hmaps] at hcolumn
        obtain ⟨earlier, hearlier, hsame⟩ := List.mem_map.mp hcolumn
        rw [heq] at hsame
        exact h.fresh item hmem earlier (htake ▸ hearlier) (UInt16.toNat_inj.mp hsame)
      refine ⟨maps ++ [{ column := item.1.column.toNat, owned := item.1.owned
                         available := item.1.available, rawGroup := (mapGroupBytes item.1).val }],
        ?_, ?_⟩
      · simp only [decodeMapGroup, hword, howned, havailable, bind_ok_iff, exists_unit,
          refuseIf_ok_iff, okOr_ok_iff, pure_ok_iff, hfound, Option.some.injEq, exists_eq_left',
          htype, hlong, not_true_eq_false, not_false_eq_true, true_and, hordinal,
          validateLocator_ok (h.owned _ hmap), validateLocator_ok (h.available _ hmap), and_true]
        exact hfresh
      · rw [List.map_append]
        exact List.rel_append hmaps (.cons ⟨rfl, rfl, rfl⟩ .nil))
  obtain ⟨maps, hmaps, hdescribes⟩ := hloop
  rw [List.zipIdx_map_fst] at hdescribes
  refine ⟨maps, ?_, hdescribes⟩
  -- every long column has got its group
  have hcovered : checkCovered decoded maps = .ok () := by
    have hnone : decoded.find? (fun column => column.physicalType.isLongValue ∧
        ¬∃ map ∈ maps, map.column = column.ordinal) = none := by
      rw [List.find?_eq_none]
      intro column hcolumn
      rw [decide_eq_true_eq, not_and, not_not]
      intro hlong
      obtain ⟨entry, hentry, hdescribesColumn⟩ := Lookup.exists_mem_of_forall₂ hdecoded hcolumn
      rw [hdescribesColumn.1.physicalType_eq] at hlong
      obtain ⟨map, hmap, heq⟩ := h.covered entry hentry hlong
      have hmem := List.mem_map_of_mem (f := fun map => map.column.toNat) hmap
      rw [Lookup.map_eq_of_forall₂ (g := LongValueMapDefinition.column)
        (fun _ _ h => h.column_eq.symm) hdescribes] at hmem
      obtain ⟨found, hfound, hfoundEq⟩ := List.mem_map.mp hmem
      exact ⟨found, hfound, hfoundEq.trans (heq.trans hdescribesColumn.1.ordinal_eq.symm)⟩
    rw [checkCovered, hnone]
  have hgroups : ((List.range spec.longValueMaps.length).map (mapGroup
      (spec.longValueMaps.flatMap fun map => (mapGroupBytes map).val))).zipIdx =
      spec.longValueMaps.zipIdx.map fun item => ((mapGroupBytes item.1).val, item.2) := by
    rw [mapGroup_written, List.zipIdx_map]
    rfl
  have hcount : spec.longValueMaps.length * longValueMapGroupLen / longValueMapGroupLen =
      spec.longValueMaps.length := Nat.mul_div_cancel _ (by decide)
  simp only [decodeLongValueMaps, hlen, Nat.mul_mod_left, hcount, hgroups, List.foldlM_map, hmaps,
    hcovered, bind_ok_iff, exists_unit, refuseIf_ok_iff, pure_ok_iff, Except.ok.injEq,
    exists_eq_left', ne_eq, not_true_eq_false, not_false_eq_true, and_self]

/-! ## What the writer admits -/

/-- Every page a specification refers to from its sections lies inside the file. -/
structure TableDefinitionSpec.Inside (spec : TableDefinitionSpec) (pageCount : ℕ) : Prop where
  usageMap : ∀ index ∈ spec.physicalIndexes, index.usageMapPage < pageCount
  root : ∀ index ∈ spec.physicalIndexes, index.root < pageCount
  related : ∀ index ∈ spec.indexes, ∀ reference, index.kind = .relationship reference →
    reference.relatedTable < pageCount
  owned : ∀ map ∈ spec.longValueMaps, map.owned.page < pageCount
  available : ∀ map ∈ spec.longValueMaps, map.available.page < pageCount

/-- The locators the writer accepts. -/
theorem validateMapReference_ok_iff {role : String} {locator : MapRowLocator} {u : Unit} :
    validateMapReference role locator = .ok u ↔ locator.page ≠ 0 ∧ locator.page ≤ maxU24Page := by
  rw [validateMapReference, refuseIf_ok_iff, not_or, gt_iff_lt, not_lt]

/-- A physical index the writer accepts is one the decoder admits. -/
theorem validatePhysical_ok {spec : TableDefinitionSpec} {pageCount : ℕ}
    {entry : PhysicalIndexSpec × ℕ} (hmap : entry.1.usageMapPage < pageCount)
    (hroot : entry.1.root < pageCount) (h : validatePhysical spec entry = .ok ()) :
    AdmittedPhysical spec pageCount entry.1 := by
  simp only [validatePhysical, validatePhysicalIndex, validatePhysicalReference, validateKeyField,
    bind_ok_iff, exists_unit, refuseIf_ok_iff, forM_ok_iff, okOr_ok_iff, not_or, not_not, not_lt,
    gt_iff_lt] at h
  obtain ⟨⟨-, hne, hlen, hfields, ⟨hmapNe, hmapLe⟩, hrootNe, hrootLe⟩, hflags⟩ := h
  refine ⟨⟨hne, hlen, ?_, ?_⟩, hmapNe, hmapLe, hrootNe, hrootLe, hflags, hmap, hroot⟩
  · intro field hfield
    obtain ⟨n, hn⟩ := List.mem_iff_getElem?.mp hfield
    obtain ⟨column, hcolumn, -⟩ := hfields (field, n) (List.mem_zipIdx_iff_getElem?.mpr hn)
    exact (List.getElem?_eq_some_iff.mp hcolumn).1
  · intro other hother earlier hearlier heq
    obtain ⟨column, -, -, hfresh⟩ := hfields other hother
    exact hfresh ⟨earlier, hearlier, heq⟩

/-- So are the logical indexes. -/
theorem validateLogicals_ok {spec : TableDefinitionSpec} {pageCount : ℕ} {primarySeen : Bool}
    (hrelated : ∀ index ∈ spec.indexes, ∀ reference, index.kind = .relationship reference →
      reference.relatedTable < pageCount)
    (h : spec.indexes.zipIdx.foldlM (validateLogical spec) false = .ok primarySeen) :
    ∀ entry ∈ spec.indexes.zipIdx, AdmittedLogical spec pageCount entry := by
  refine (foldlM_ok_induction (fun done seen =>
    (seen = (done.map Prod.fst).any fun index => index.kind = .primary) ∧
      ∀ entry ∈ done, AdmittedLogical spec pageCount entry) ⟨rfl, by simp⟩ ?_ h).2
  rintro done entry rest seen seen' hsplit ⟨hseen, hdone⟩ hstep
  obtain ⟨-, hget, htake⟩ := Lookup.zipIdx_split hsplit
  have hmem : entry.1 ∈ spec.indexes := List.mem_of_getElem? hget
  simp only [validateLogical, validateName, bind_ok_iff, exists_unit, refuseIf_ok_iff, okOr_ok_iff,
    not_lt, gt_iff_lt] at hstep
  obtain ⟨⟨hne, hle, hfresh⟩, physical, hphysical, hkind⟩ := hstep
  rw [← htake] at hseen
  -- ordinary index, primary key, relationship
  have hadmitted : AdmittedLogical spec pageCount entry ∧
      seen' = (seen || decide (entry.1.kind = .primary)) := by
    rcases hclass : entry.1.kind with _ | _ | reference
    · rw [hclass] at hkind
      cases hkind
      refine ⟨⟨hne, hle, hfresh, ⟨physical, hphysical, fun h => ?_⟩, fun h => ?_, fun _ h => ?_⟩,
        ?_⟩
      · rw [hclass] at h
        cases h
      · rw [hclass] at h
        cases h
      · rw [hclass] at h
        cases h
      · simp
    · rw [hclass] at hkind
      simp only [validateLogicalKind, bind_ok_iff, exists_unit, refuseIf_ok_iff, pure_ok_iff,
        Bool.not_eq_true, ne_eq, not_not] at hkind
      obtain ⟨hnone, hflags, rfl⟩ := hkind
      refine ⟨⟨hne, hle, hfresh, ⟨physical, hphysical, fun _ => hflags⟩, fun _ => ?_, fun _ h =>
        ?_⟩, ?_⟩
      · exact hseen ▸ hnone
      · rw [hclass] at h
        cases h
      · simp
    · rw [hclass] at hkind
      simp only [validateLogicalKind, bind_ok_iff, exists_unit, refuseIf_ok_iff, pure_ok_iff,
        not_or, gt_iff_lt, not_lt] at hkind
      obtain ⟨⟨hrelatedNe, hrelatedLe⟩, rfl⟩ := hkind
      refine ⟨⟨hne, hle, hfresh, ⟨physical, hphysical, fun h => ?_⟩, fun h => ?_, fun other h =>
        ?_⟩, ?_⟩
      · rw [hclass] at h
        cases h
      · rw [hclass] at h
        cases h
      · have hother := hrelated entry.1 hmem other h
        rw [hclass, LogicalIndexKindSpec.relationship.injEq] at h
        subst h
        exact ⟨hrelatedNe, hrelatedLe, hother⟩
      · simp
  obtain ⟨hadmitted, hseen'⟩ := hadmitted
  refine ⟨?_, ?_⟩
  · rw [hseen', hseen, htake, List.map_append, List.any_append]
    simp
  · intro other hother
    rcases List.mem_append.mp hother with hold | hnew
    · exact hdone other hold
    · rw [List.mem_singleton.mp hnew]
      exact hadmitted

/-- Every physical index has a logical one. -/
theorem validateReferenced_ok {spec : TableDefinitionSpec} {u : Unit}
    (h : validateReferenced spec = .ok u) : ∀ ordinal < spec.physicalIndexes.length,
      ∃ index ∈ spec.indexes, index.physicalIndex.toNat = ordinal := by
  intro ordinal hlt
  unfold validateReferenced at h
  split at h
  next => cases h
  next hnone =>
    rw [List.find?_eq_none] at hnone
    have := hnone ordinal (List.mem_range.mpr hlt)
    rwa [decide_eq_true_eq, not_not] at this

/-- The map groups the writer accepts are ones the decoder admits. -/
theorem validateLongValueMaps_ok {spec : TableDefinitionSpec} {pageCount : ℕ} {u : Unit}
    (howned : ∀ map ∈ spec.longValueMaps, map.owned.page < pageCount)
    (havailable : ∀ map ∈ spec.longValueMaps, map.available.page < pageCount)
    (h : validateLongValueMaps spec = .ok u) : AdmittedMaps spec pageCount := by
  rw [validateLongValueMaps, bind_ok_iff, exists_unit, forM_ok_iff] at h
  obtain ⟨hgroups, hcovered⟩ := h
  -- every group was checked at its place
  have hgroup : ∀ map ∈ spec.longValueMaps, ∃ n, spec.longValueMaps[n]? = some map ∧
      validateLongValueMap spec (map, n) = .ok () := by
    intro map hmap
    obtain ⟨n, hn⟩ := List.mem_iff_getElem?.mp hmap
    exact ⟨n, hn, hgroups _ (List.mem_zipIdx_iff_getElem?.mpr hn)⟩
  have hmap_ok : ∀ {map n}, validateLongValueMap spec (map, n) = .ok () →
      (∃ column, spec.columns[map.column.toNat]? = some column ∧
        column.physicalType.isLongValue = true) ∧
      (∀ earlier ∈ spec.longValueMaps.take n, earlier.column ≠ map.column) ∧
      (map.owned.page ≠ 0 ∧ map.owned.page ≤ maxU24Page) ∧
      (map.available.page ≠ 0 ∧ map.available.page ≤ maxU24Page) := by
    intro map n hok
    simp only [validateLongValueMap, bind_ok_iff, exists_unit, refuseIf_ok_iff,
      validateMapReference_ok_iff, not_or, Bool.not_eq_false, Bool.not_eq_true, Option.any_eq_true,
      List.any_eq_false, decide_eq_true_eq] at hok
    exact ⟨hok.1.1, hok.1.2, hok.2.1, hok.2.2⟩
  refine ⟨?_, ?_, ?_, ?_, ?_⟩
  · intro map hmap
    obtain ⟨n, -, hok⟩ := hgroup map hmap
    exact (hmap_ok hok).1
  · intro entry hentry earlier hearlier
    exact (hmap_ok (hgroups entry hentry)).2.1 earlier hearlier
  · intro map hmap
    obtain ⟨n, -, hok⟩ := hgroup map hmap
    obtain ⟨-, -, ⟨hne, hle⟩, -⟩ := hmap_ok hok
    exact ⟨hne, hle, howned map hmap⟩
  · intro map hmap
    obtain ⟨n, -, hok⟩ := hgroup map hmap
    obtain ⟨-, -, -, hne, hle⟩ := hmap_ok hok
    exact ⟨hne, hle, havailable map hmap⟩
  · intro entry hentry hlong
    split at hcovered
    next => cases hcovered
    next hnone =>
      rw [List.find?_eq_none] at hnone
      have := hnone entry hentry
      rw [decide_eq_true_eq, not_and, not_not] at this
      exact this hlong

/-! ## The header -/

section Header

variable (spec : TableDefinitionSpec) (count length : ℕ)

/-- The fields of the header in order. -/
def headerFields : List (List UInt8) :=
  [[0x02, 0x01, 0x56, 0x43], leBytes 4 0, leBytes 4 length, leBytes 4 spec.rowCount.toNat,
    leBytes 4 0, [spec.kind.headerMarker], leBytes 2 spec.columns.length, leBytes 2 count,
    leBytes 2 spec.columns.length, leBytes 2 spec.indexes.length, leBytes 2 0,
    leBytes 2 spec.physicalIndexes.length, leBytes 2 0, (mapLocatorBytes spec.ownedMap).val,
    (mapLocatorBytes spec.availableMap).val]

/-- The header is its fields, one behind the other. -/
theorem headerBytes_val :
    (headerBytes spec count length).val = (headerFields spec count length).flatten := by
  simp only [headerBytes, headerFields, List.flatten_cons, List.flatten_nil, List.append_assoc,
    List.append_nil]

/-- A number of the header, read back from the offset where its field starts. -/
theorem leAt_headerBytes {k offset width n : ℕ}
    (hfield : (headerFields spec count length)[k]? = some (leBytes width n))
    (hoffset : ((headerFields spec count length).take k).flatten.length = offset)
    (hlt : n < 256 ^ width) : leAt (headerBytes spec count length).val offset width = n := by
  rw [headerBytes_val, leAt_flatten hfield hoffset (length_leBytes width n)]
  exact leValue_leBytes_of_lt hlt

/-- The marker of the header is that of the table's kind. -/
theorem decodeKind_headerBytes :
    decodeKind (byteAt (headerBytes spec count length).val headerMarkerField) = .ok spec.kind := by
  have hmarker : byteAt (headerBytes spec count length).val headerMarkerField =
      spec.kind.headerMarker := by
    have hread : (((headerFields spec count length).flatten ++ []).drop headerMarkerField).take 1 =
        [spec.kind.headerMarker] := take_drop_flatten (k := 5) rfl rfl rfl
    rw [List.append_nil, ← headerBytes_val] at hread
    have hhead := congrArg List.head? hread
    rw [List.head?_take, if_neg (by decide), List.head?_drop] at hhead
    rw [byteAt, List.getD_eq_getElem?_getD, hhead]
    rfl
  rw [hmarker]
  cases spec.kind <;> rfl

theorem leAt_headerBytes_rowCount :
    leAt (headerBytes spec count length).val rowCountField 4 = spec.rowCount.toNat :=
  leAt_headerBytes spec count length (k := 3) rfl rfl spec.rowCount.toNat_lt

theorem leAt_headerBytes_logicalCount (h : spec.indexes.length < 2 ^ 16) :
    leAt (headerBytes spec count length).val logicalIndexCountField 2 = spec.indexes.length :=
  leAt_headerBytes spec count length (k := 9) rfl rfl h

theorem leAt_headerBytes_physicalCount (h : spec.physicalIndexes.length < 2 ^ 16) :
    leAt (headerBytes spec count length).val physicalIndexCountField 2 =
      spec.physicalIndexes.length :=
  leAt_headerBytes spec count length (k := 11) rfl rfl h

theorem leAt_headerBytes_storageColumns (h : spec.columns.length < 2 ^ 16) :
    leAt (headerBytes spec count length).val storageColumnCountField 2 = spec.columns.length :=
  leAt_headerBytes spec count length (k := 6) rfl rfl h

theorem leAt_headerBytes_columns (h : spec.columns.length < 2 ^ 16) :
    leAt (headerBytes spec count length).val columnCountField 2 = spec.columns.length :=
  leAt_headerBytes spec count length (k := 8) rfl rfl h

theorem leAt_headerBytes_variables (h : count < 2 ^ 16) :
    leAt (headerBytes spec count length).val storageVariableCountField 2 = count :=
  leAt_headerBytes spec count length (k := 7) rfl rfl h

theorem leAt_headerBytes_reserved :
    leAt (headerBytes spec count length).val reservedCountField 2 = 0 :=
  leAt_headerBytes spec count length (k := 10) rfl rfl (by decide)

/-- The rows of the two maps are found in the header. -/
theorem definitionMaps_headerBytes (rest : List UInt8) (howned : spec.ownedMap.page ≤ maxU24Page)
    (havailable : spec.availableMap.page ≤ maxU24Page) :
    definitionMaps ((headerBytes spec count length).val ++ rest) =
      { owned := spec.ownedMap, available := spec.availableMap } := by
  have hownedField : (((headerFields spec count length).flatten ++ rest).drop 35).take 4 =
      (mapLocatorBytes spec.ownedMap).val := take_drop_flatten (k := 13) rfl rfl rfl
  have havailableField : (((headerFields spec count length).flatten ++ rest).drop 39).take 4 =
      (mapLocatorBytes spec.availableMap).val := take_drop_flatten (k := 14) rfl rfl rfl
  rw [headerBytes_val, definitionMaps, hownedField, havailableField,
    decodeLocator_mapLocatorBytes howned, decodeLocator_mapLocatorBytes havailable]

/-- The counts of the header are those the columns are read against. -/
theorem decodeCounts_headerBytes (h : spec.columns.length ≤ maxColumnCount) :
    decodeCounts spec.kind (headerBytes spec (variableColumns spec.columns) length) =
      .ok spec.columnContext := by
  have hmax : maxColumnCount = 255 := rfl
  have hvariables := variableColumns_le spec.columns
  have hcolumns : spec.columns.length < 2 ^ 16 := by omega
  have hcount : variableColumns spec.columns < 2 ^ 16 := by omega
  simp only [decodeCounts, leAt_headerBytes_storageColumns spec _ _ hcolumns,
    leAt_headerBytes_columns spec _ _ hcolumns, leAt_headerBytes_variables spec _ _ hcount,
    leAt_headerBytes_reserved, bind_ok_iff, exists_unit, refuseIf_ok_iff, pure_ok_iff]
  exact ⟨by omega, by omega, fun hne => hne rfl, rfl⟩

end Header

/-- The prefixes are read back in order. -/
theorem takePhysicalPrefixes_written {total : ℕ} (indexes : List PhysicalIndexSpec)
    (tail : List UInt8) :
    takePhysicalPrefixes total indexes.length
      (indexes.flatMap (fun index => (physicalPrefix index).val) ++ tail) =
        .ok (indexes.map physicalPrefix, tail) := by
  have hloop := exists_foldlM_read (f := takePhysicalPrefix total) (l := indexes.zipIdx)
    (fun item : PhysicalIndexSpec × ℕ => item.2) (fun item => (physicalPrefix item.1).val)
    (fun done prefixes => prefixes = done.map fun item => physicalPrefix item.1) (s := []) tail rfl
    (by
      rintro done item rest prefixes remaining - rfl
      refine ⟨_, ?_, rfl⟩
      simp only [takePhysicalPrefix, bind_ok_iff, Prod.exists, take_ok_iff, pure_ok_iff,
        List.map_append]
      exact ⟨physicalPrefix item.1, remaining, rfl, rfl⟩)
  obtain ⟨prefixes, hloop, rfl⟩ := hloop
  have hkeys : indexes.zipIdx.map (fun item => item.2) = List.range indexes.length := by
    rw [List.range_eq_range', ← List.zipIdx_map_snd]
  have hbytes : indexes.zipIdx.flatMap (fun item => (physicalPrefix item.1).val) =
      indexes.flatMap fun index => (physicalPrefix index).val := by
    have := congrArg (List.flatMap fun index => (physicalPrefix index).val)
      (List.zipIdx_map_fst 0 indexes)
    rwa [List.flatMap_map] at this
  have hprefixes : indexes.zipIdx.map (fun item => physicalPrefix item.1) =
      indexes.map physicalPrefix := by
    have := congrArg (List.map physicalPrefix) (List.zipIdx_map_fst 0 indexes)
    rwa [List.map_map] at this
  rw [hkeys, hbytes, hprefixes] at hloop
  have hlen : (indexes.flatMap fun index => (physicalPrefix index).val).length =
      indexes.length * physicalPrefixLen := by
    simp [List.length_flatMap, (physicalPrefix _).property]
  rw [takePhysicalPrefixes, bind_ok_iff]
  -- The prefixes are there as a whole before they are taken one by one.
  exact ⟨(⟨_, hlen⟩, tail), take_ok_iff.mpr rfl, hloop⟩

/-! ## The round trip -/

/-- A definition that describes a specification. -/
structure Describes (spec : TableDefinitionSpec) (table : TableDefinition) : Prop where
  kind_eq : table.kind = spec.kind
  rowCount_eq : table.rowCount = spec.rowCount.toNat
  maps_eq : table.maps = { owned := spec.ownedMap, available := spec.availableMap }
  columns : DescribesColumns spec.columns table.columns
  physicalIndexes : List.Forall₂ DescribesPhysical spec.physicalIndexes table.physicalIndexes
  indexes : List.Forall₂ DescribesLogical spec.indexes table.indexes
  longValueMaps : List.Forall₂ DescribesMap spec.longValueMaps table.longValueMaps

/-- A name is written behind its length byte. -/
theorem writeName_ok {name bytes : List UInt8} (h : writeName name = .ok bytes) :
    bytes = nameBytes name := by
  simp only [writeName, bind_ok_iff, exists_unit, refuseIf_ok_iff, pure_ok_iff] at h
  exact h.2.symm

/-- The sections an encoded definition consists of. -/
theorem encodeTableDefinition_ok {spec : TableDefinitionSpec} {available : ℕ}
    {encodingContext : Bytes 4} {bytes : List UInt8}
    (h : encodeTableDefinition spec available encodingContext = .ok bytes) :
    ∃ length records, validateDefinition spec = .ok (variableColumns spec.columns) ∧
      tableDefinitionLen spec = .ok length ∧
      List.Forall₂ (WrittenColumn spec encodingContext) spec.columns.zipIdx records ∧
      bytes = (headerBytes spec (variableColumns spec.columns) length).val ++
        (spec.physicalIndexes.flatMap (fun index => (physicalPrefix index).val) ++
        (records.flatMap Subtype.val ++
        (spec.columns.flatMap (fun column => nameBytes column.name) ++
        (spec.physicalIndexes.flatMap (fun index => (physicalRecord index).val) ++
        (spec.indexes.flatMap (fun index => (logicalRecord index).val) ++
        (spec.indexes.flatMap (fun index => nameBytes index.name) ++
        (spec.longValueMaps.flatMap (fun map => (mapGroupBytes map).val) ++ terminator))))))) := by
  simp only [encodeTableDefinition, bind_ok_iff, exists_unit, Prod.exists, pure_ok_iff] at h
  obtain ⟨count, hvalid, length, hlength, -, -, header, hheader, records, cursor, hrecords,
    columnNames, hcolumnNames, physical, hphysical, logical, hlogical, indexNames, hindexNames,
    groups, hgroups, rfl⟩ := h
  have hcount : count = variableColumns spec.columns := by
    simp only [validateDefinition, bind_ok_iff, exists_unit, pure_ok_iff] at hvalid
    obtain ⟨-, -, -, -, -, -, count', hlayout, -, -, -, -, -, -, rfl⟩ := hvalid
    exact (validateColumnLayout_ok hlayout).2.1
  simp only [writeHeader, bind_ok_iff, pure_ok_iff] at hheader
  obtain ⟨-, -, -, -, rfl⟩ := hheader
  -- each section holds the records of its items, one behind the other
  have hcolumns : columnNames = spec.columns.map fun column => nameBytes column.name :=
    eq_map_of_mapM_ok (fun _ _ _ hname => writeName_ok hname) hcolumnNames
  have hindexes : indexNames = spec.indexes.map fun index => nameBytes index.name :=
    eq_map_of_mapM_ok (fun _ _ _ hname => writeName_ok hname) hindexNames
  have hphysicals : physical = spec.physicalIndexes.map physicalRecord := by
    refine eq_map_of_mapM_ok (fun index _ record hrecord => ?_) hphysical
    simp only [writePhysicalRecord, bind_ok_iff, pure_ok_iff] at hrecord
    obtain ⟨-, -, -, -, rfl⟩ := hrecord
    rfl
  have hlogicals : logical = spec.indexes.map logicalRecord := by
    refine eq_map_of_mapM_ok (fun index _ record hrecord => ?_) hlogical
    simp only [writeLogicalRecord, bind_ok_iff, pure_ok_iff] at hrecord
    obtain ⟨-, -, rfl⟩ := hrecord
    rfl
  have hmaps : groups = spec.longValueMaps.map mapGroupBytes := by
    refine eq_map_of_mapM_ok (fun map _ group hgroup => ?_) hgroups
    simp only [writeMapGroup, bind_ok_iff, pure_ok_iff] at hgroup
    obtain ⟨-, -, -, -, rfl⟩ := hgroup
    rfl
  refine ⟨length, records, hcount ▸ hvalid, hlength, writeColumns_ok hrecords, ?_⟩
  rw [hcount, hcolumns, hindexes, hphysicals, hlogicals, hmaps]
  simp only [List.flatMap_map, ← List.flatMap_def]

/-- The written definition has the length the encoder announces. -/
theorem length_encodeTableDefinition {spec : TableDefinitionSpec} {available : ℕ}
    {encodingContext : Bytes 4} {bytes : List UInt8}
    (h : encodeTableDefinition spec available encodingContext = .ok bytes) :
    tableDefinitionLen spec = .ok bytes.length := by
  obtain ⟨length, records, -, hlength, hrecords, rfl⟩ := encodeTableDefinition_ok h
  rw [hlength, Except.ok.injEq]
  simp only [tableDefinitionLen, definitionLen, bind_ok_iff, exists_unit, pure_ok_iff] at hlength
  obtain ⟨-, -, -, -, rfl⟩ := hlength
  have hcount : records.length = spec.columns.length := by
    rw [← hrecords.length_eq, List.length_zipIdx]
  have hname : ∀ name : List UInt8, (nameBytes name).length = storedNameLen name := by
    intro name
    rw [nameBytes, List.length_cons, storedNameLen, Nat.add_comm]
  have hterminator : terminator.length = terminatorLen := rfl
  simp only [List.length_append, List.length_flatMap, (headerBytes _ _ _).property,
    (physicalPrefix _).property, (physicalRecord _).property, (logicalRecord _).property,
    (mapGroupBytes _).property, (_ : Bytes columnRecordLen).property, hname, hterminator,
    List.map_const', List.sum_replicate_nat, hcount, List.map_map, List.length_map,
    Function.comp_def, Nat.mul_add]
  omega

/-- Every definition the writer encodes has the announced length, and the reader decodes it to a
definition that describes the specification. -/
theorem decodeDefinition_encodeTableDefinition {spec : TableDefinitionSpec}
    {available pageCount : ℕ}
    {encodingContext : Bytes 4} {bytes : List UInt8} (root : PageNumber)
    (hcontext : encodingContext.val ∈ encodingContexts) (hinside : spec.Inside pageCount)
    (h : encodeTableDefinition spec available encodingContext = .ok bytes) :
    tableDefinitionLen spec = .ok bytes.length ∧
      ∃ table, decodeDefinition bytes root (definitionMaps bytes) pageCount = .ok table ∧
        Describes spec table := by
  refine ⟨length_encodeTableDefinition h, ?_⟩
  obtain ⟨length, records, hvalid, -, hrecords, rfl⟩ := encodeTableDefinition_ok h
  -- What the validation of the whole request established.
  simp only [validateDefinition, bind_ok_iff, exists_unit, refuseIf_ok_iff, forM_ok_iff,
    validateMapReference_ok_iff, not_not, pure_ok_iff] at hvalid
  obtain ⟨-, -, hphysicalCount, hlogicalCount, ⟨-, howned⟩, ⟨-, havailable⟩, count, hlayout,
    hphysical, primarySeen, hlogical, hreferenced, -, hmaps, -⟩ := hvalid
  obtain ⟨hmax, -, hnames⟩ := validateColumnLayout_ok hlayout
  have hadmitted : ∀ index ∈ spec.physicalIndexes, AdmittedPhysical spec pageCount index := by
    intro index hindex
    obtain ⟨n, hn⟩ := List.mem_iff_getElem?.mp hindex
    exact validatePhysical_ok (hinside.usageMap index hindex) (hinside.root index hindex)
      (hphysical (index, n) (List.mem_zipIdx_iff_getElem?.mpr hn))
  have hkind := decodeKind_headerBytes spec (variableColumns spec.columns) length
  have hcounts := decodeCounts_headerBytes spec length hmax
  have hrows := leAt_headerBytes_rowCount spec (variableColumns spec.columns) length
  have hphysicals := leAt_headerBytes_physicalCount spec (variableColumns spec.columns) length
    hphysicalCount
  have hlogicals := leAt_headerBytes_logicalCount spec (variableColumns spec.columns) length
    hlogicalCount
  have hlocators := fun rest =>
    definitionMaps_headerBytes spec (variableColumns spec.columns) length
    rest howned havailable
  generalize headerBytes spec (variableColumns spec.columns) length = header at *
  -- The sections are read one after the other, each leaving the next ones.
  generalize hbytes : header.val ++ (spec.physicalIndexes.flatMap
    (fun index => (physicalPrefix index).val) ++ _) = bytes
  obtain ⟨columns, hcolumns, hdescribesColumns⟩ := decodeColumns_written bytes.length _
    hcontext hmax hrecords hnames
  obtain ⟨physical, logical, hindexes, hdescribesPhysical, hdescribesLogical⟩ :=
    @decodeIndexes_written spec
      ⟨spec.kind, columns, spec.indexes.length, spec.physicalIndexes.length, pageCount⟩
      bytes.length _ rfl rfl rfl hmax hdescribesColumns hadmitted
      (validateLogicals_ok hinside.related hlogical) (validateReferenced_ok hreferenced)
  obtain ⟨maps, hgroups, hdescribesMaps⟩ := decodeLongValueMaps_written hdescribesColumns
    (validateLongValueMaps_ok hinside.owned hinside.available hmaps)
  refine ⟨{ root, kind := spec.kind, logicalLength := 0, pages := [], maps := definitionMaps bytes
            columns, physicalIndexes := physical, indexes := logical, longValueMaps := maps
            rawHeader := header
            rawSuffix := spec.longValueMaps.flatMap fun map => (mapGroupBytes map).val }, ?_, ?_⟩
  · simp only [decodeDefinition, bind_ok_iff, mapError_ok_iff, Prod.exists]
    refine ⟨header, _, take_ok_iff.mpr hbytes.symm, spec.kind, hkind, spec.columnContext, hcounts,
      ?_⟩
    rw [hphysicals, hlogicals]
    exact ⟨_, _, takePhysicalPrefixes_written _ _, columns, _, hcolumns, physical, logical, _,
      hindexes, _, splitSuffix_ok_iff.mpr rfl, maps, hgroups, rfl⟩
  · exact ⟨rfl, hrows, hbytes ▸ hlocators _, hdescribesColumns, hdescribesPhysical,
      hdescribesLogical, hdescribesMaps⟩

/-- A keyed table with a memo column. -/
def notesSpec : TableDefinitionSpec :=
  { kind := .user
    columns := [{ name := [0x49, 0x64], columnType := .autoIncrement },
      { name := [0x4e, 0x6f, 0x74, 0x65], columnType := .memo }]
    systemColumnClasses := []
    physicalIndexes := [{ fields := [{ column := 0, direction := .ascending }], usageMapPage := 7
                          usageMapRow := 2, root := 8, flags := .uniqueRequired, entryCount := 3 }]
    indexes := [{ name := [0x50, 0x4b], physicalIndex := 0, kind := .primary }]
    ownedMap := { page := 7, row := 0 }
    availableMap := { page := 7, row := 1 }
    rowCount := 3
    longValueMaps := [{ column := 1, owned := { page := 7, row := 3 }
                        available := { page := 7, row := 4 } }] }

/-- The definition of this table is decoded on a file of nine pages. -/
theorem decodeDefinition_encodeTableDefinition_notes :
    ∃ bytes table,
      encodeTableDefinition notesSpec 2048 ⟨[0x09, 0x04, 0xe4, 0x04], rfl⟩ = .ok bytes ∧
      decodeDefinition bytes 6 (definitionMaps bytes) 9 = .ok table ∧
      Describes notesSpec table := by
  obtain ⟨bytes, hbytes⟩ := exists_ok
    (x := encodeTableDefinition notesSpec 2048 ⟨[0x09, 0x04, 0xe4, 0x04], rfl⟩) (by decide +kernel)
  have hinside : notesSpec.Inside 9 := by
    constructor <;> simp [notesSpec]
  obtain ⟨-, table, htable, hdescribes⟩ :=
    decodeDefinition_encodeTableDefinition 6 (by decide) hinside hbytes
  exact ⟨bytes, table, hbytes, htable, hdescribes⟩

end Jet3
