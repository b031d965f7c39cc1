import Jet3.Row.Written
import Jet3.Row.WrittenTrailer

/-!
# Rows written and read

A row the writer encodes is accepted by the reader of any definition whose columns have the
placements the row was encoded with, and every field is read back. Dropped columns may leave gaps in
the storage ordinals, the fixed area and the variable slots.

* `StoresRows` is what a decoded definition guarantees about its columns;
* `EncodedRow` collects what the bytes of an encoded row are;
* `field_encodeRow` is the round trip.
-/

namespace Jet3

open Outcome Fields

/-! ## Definitions -/

/-- What a definition guarantees about the columns it stores. -/
structure TableDefinition.StoresRows (definition : TableDefinition) : Prop where
  count_lt : definition.storageColumnCount < 256
  ordinal_lt : ∀ column ∈ definition.columns, column.storageOrdinal < definition.storageColumnCount
  slot_lt : ∀ column ∈ definition.columns, ∀ index, column.storage = .variable index →
    index < definition.storageVariableCount
  slot_le : ∀ column ∈ definition.columns, ∀ index, column.storage = .variable index →
    index ≤ column.storageOrdinal

/-- A layout that places a column as the definition does. -/
structure LaysOut (entry : RowColumnLayout × ℕ) (column : ColumnDefinition) : Prop where
  physicalType_eq : entry.1.physicalType = column.physicalType
  storage_eq : entry.1.storage = column.storage
  size_eq : entry.1.size = column.size
  ordinal_eq : entry.1.storageOrdinal.getD entry.2 = column.storageOrdinal

/-- A field of a row and the column that stores it. -/
def StoredIn (field : RowField) (column : ColumnDefinition) : Prop :=
  LaysOut (field.column, field.2) column

/-- The stored form of a value. -/
def storedField (column : ColumnDefinition) (value : RowValue) : RawField :=
  if column.physicalType = .boolean then .bytes []
  else if value.present column.physicalType then
    match column.storage with
    | .fixed _ => .bytes value.scalarBytes
    | .variable _ => .bytes value.variableBytes
  else .null

theorem forall₂_rowFields {columns : List RowColumnLayout} {values : List RowValue}
    {defined : List ColumnDefinition} (hlength : values.length = columns.length)
    (h : List.Forall₂ LaysOut columns.zipIdx defined) :
    List.Forall₂ StoredIn (rowFields columns values) defined := by
  have hcolumns : (rowFields columns values).map (fun field => (field.column, field.2)) =
      columns.zipIdx := by
    refine List.ext_getElem? fun i => ?_
    rw [rowFields, List.getElem?_map, List.getElem?_zipIdx, List.getElem?_zipIdx, Option.map_map]
    by_cases hi : i < columns.length
    · have hvalue : i < values.length := by omega
      have hpair : (columns.zip values)[i]? = some (columns[i], values[i]) :=
        List.getElem?_zip_eq_some.mpr
          ⟨List.getElem?_eq_getElem hi, List.getElem?_eq_getElem hvalue⟩
      rw [hpair, List.getElem?_eq_getElem hi]
      rfl
    · have hzip : (columns.zip values).length ≤ i := by
        rw [List.length_zip]
        omega
      rw [List.getElem?_eq_none hzip, List.getElem?_eq_none (Nat.not_lt.mp hi)]
      rfl
  rw [← hcolumns, List.forall₂_map_left_iff] at h
  exact h

theorem filterMap_eq_of_forall₂ {α β γ : Type} {r : α → β → Prop} {f : α → Option γ}
    {g : β → Option γ}
    {l : List α} {l' : List β} (h : List.Forall₂ r l l') (heq : ∀ a b, r a b → f a = g b) :
    l.filterMap f = l'.filterMap g := by
  induction h with
  | nil => rfl
  | cons hab _ ih => rw [List.filterMap_cons, List.filterMap_cons, heq _ _ hab, ih]

section Requirements

variable {fields : List RowField} {shape : RowShape} {definition : TableDefinition}

/-- All columns of the definition are stored. -/
theorem storedColumns_eq (hshape : Shaped fields shape)
    (hfields : List.Forall₂ StoredIn fields definition.columns) :
    storedColumns definition shape.columnCount = definition.columns := by
  refine List.filter_eq_self.mpr fun column hcolumn => decide_eq_true ?_
  obtain ⟨i, hi⟩ := List.mem_iff_getElem?.mp hcolumn
  obtain ⟨field, hfield, hstored⟩ := Lookup.getElem?_of_forall₂ hfields.flip hi
  rw [← hstored.ordinal_eq]
  exact hshape.storageOrdinal_lt (List.mem_of_getElem? hfield)

/-- What the definition requires of the row is what the writer computed. -/
theorem rowRequirement_eq (hshape : Shaped fields shape)
    (hfields : List.Forall₂ StoredIn fields definition.columns) :
    (rowRequirement definition shape.columnCount).fixedBoundary =
        1 + maximum (fields.filterMap RowField.fixedEnd) ∧
      (rowRequirement definition shape.columnCount).minimumVariables = shape.variableCount := by
  have hends : fields.filterMap RowField.fixedEnd =
      definition.columns.filterMap ColumnDefinition.fixedEnd :=
    filterMap_eq_of_forall₂ hfields fun field column hstored => by
      have htype : field.column.physicalType = column.physicalType := hstored.physicalType_eq
      have hstorage : field.column.storage = column.storage := hstored.storage_eq
      have hsize : field.column.size = column.size := hstored.size_eq
      cases hcase : column.storage <;>
        simp only [RowField.fixedEnd, ColumnDefinition.fixedEnd, htype, hstorage, hsize, hcase]
  have hslots : (fields.filterMap RowField.slot).map (· + 1) =
      definition.columns.filterMap ColumnDefinition.variableEnd := by
    rw [List.map_filterMap]
    refine filterMap_eq_of_forall₂ hfields fun field column hstored => ?_
    have hstorage : field.column.storage = column.storage := hstored.storage_eq
    rw [RowField.slot, ColumnDefinition.variableEnd, hstorage]
    cases column.storage <;> rfl
  have hle := hshape.variableCount_le
  rw [rowRequirement]
  dsimp only
  rw [storedColumns_eq hshape hfields, ← hends, ← hslots, ← hshape.variableCount_eq]
  exact ⟨rfl, Nat.mod_eq_of_lt (by omega)⟩

/-- A row stores no more variable columns than the definition has. -/
theorem variableCount_le (hdefinition : definition.StoresRows) (hshape : Shaped fields shape)
    (hfields : List.Forall₂ StoredIn fields definition.columns) :
    shape.variableCount ≤ definition.storageVariableCount ∧
      shape.variableCount ≤ shape.columnCount := by
  have hslot : ∀ index ∈ fields.filterMap RowField.slot,
      index < definition.storageVariableCount ∧ index < shape.columnCount := by
    intro index hindex
    obtain ⟨field, hfield, hslot⟩ := List.mem_filterMap.mp hindex
    obtain ⟨i, hi⟩ := List.mem_iff_getElem?.mp hfield
    obtain ⟨column, hcolumn, hstored⟩ := Lookup.getElem?_of_forall₂ hfields hi
    have hmem := List.mem_of_getElem? hcolumn
    have hstorage : column.storage = .variable index := by
      rw [← hstored.storage_eq]
      unfold RowField.slot at hslot
      split at hslot
      next => cases hslot
      next slot heq =>
        rw [← Option.some.inj hslot]
        exact heq
    have hordinal : field.storageOrdinal = column.storageOrdinal := hstored.ordinal_eq
    have hlt := hshape.storageOrdinal_lt hfield
    have hle := hdefinition.slot_le column hmem index hstorage
    exact ⟨hdefinition.slot_lt column hmem index hstorage, by omega⟩
  rw [hshape.variableCount_eq]
  constructor
  · refine maximum_le fun n hn => ?_
    obtain ⟨index, hindex, rfl⟩ := List.mem_map.mp hn
    exact (hslot index hindex).1
  · refine maximum_le fun n hn => ?_
    obtain ⟨index, hindex, rfl⟩ := List.mem_map.mp hn
    exact (hslot index hindex).2

/-- Longer values need longer rows. -/
theorem maximumLength_mono {a b : ℕ} (h : a ≤ b) : maximumLength a ≤ maximumLength b := by
  unfold maximumLength
  split <;> split <;> omega

end Requirements

/-! ## Bytes -/

theorem map_fst_rowFields (columns : List RowColumnLayout) (values : List RowValue) :
    (rowFields columns values).map Prod.fst = columns.zip values :=
  List.zipIdx_map_fst 0 _

/-- The fixed area, as the shape describes it. -/
theorem writeFixed_eq (fields : List RowField) (shape : RowShape) :
    writeFixed (fields.map Prod.fst) shape = Shaped.fixedArea fields shape := by
  rw [writeFixed, Shaped.fixedArea, overwriteAll, List.foldl_filterMap, List.foldl_map]
  congr 1
  ext1 row
  ext1 field
  rw [writeFixedField, RowField.fixedWrite, RowField.column]
  cases field.1.1.storage with
  | fixed offset =>
    show (if RowField.present field = true ∧ field.1.1.physicalType ≠ .boolean then _ else row) = _
    split <;> rfl
  | _ => rfl

/-- The variable values, in the order of their slots. -/
theorem variableFields_eq (fields : List RowField) {count : ℕ} (h : count ≤ 255) :
    variableFields (fields.map Prod.fst) count = Shaped.storedFields fields count := by
  have hslots : (fields.map Prod.fst).foldl setSlot (List.replicate rowMaxColumnCount none) =
      Shaped.slots fields := by
    rw [Shaped.slots, assignAll, List.foldl_filterMap, List.foldl_map]
    congr 1
    ext1 slots
    ext1 field
    rw [setSlot, RowField.assignment, RowField.slot, RowField.column]
    cases field.1.1.storage <;> rfl
  have hlen := Shaped.length_slots fields
  rw [variableFields, hslots, Shaped.storedFields]
  refine List.ext_getElem? fun i => ?_
  rw [List.getElem?_map, List.getElem?_map]
  by_cases hi : i < count
  · rw [List.getElem?_range hi, List.getElem?_take_of_lt hi, List.getElem?_eq_getElem (by omega),
      Option.map_some, Option.map_some, List.getD_eq_getElem?_getD,
      List.getElem?_eq_getElem (by omega)]
    rfl
  · rw [List.getElem?_eq_none (by rw [List.length_range]; omega),
      List.getElem?_eq_none (by rw [List.length_take]; omega)]
    rfl

/-- The null map, as the shape describes it. -/
theorem nullMap_eq (columns : List RowColumnLayout) (values : List RowValue) :
    nullMap (columns.zip values) = Shaped.presenceMap (rowFields columns values) := by
  rw [nullMap, Shaped.presenceMap, List.foldl_map, List.foldl_filter]
  rfl

/-- What the bytes of an encoded row are. -/
structure EncodedRow (fields : List RowField) (shape : RowShape) (row : List UInt8) : Prop where
  shaped : Shaped fields shape
  bytes_eq : row = Shaped.fixedArea fields shape ++
    ((Shaped.storedFields fields shape.variableCount).flatten ++
      ((if shape.variableCount > 0 then
          writeTrailer (boundariesFrom (1 + shape.fixedSize)
            (Shaped.storedFields fields shape.variableCount)) shape.jumps
        else []) ++ (Shaped.presenceMap fields).take shape.nullLen))

/-- An encoded row is made of its three areas and the trailer. -/
theorem encodeRow_ok {columns : List RowColumnLayout} {values : List RowValue} {available : ℕ}
    {row : List UInt8} (h : encodeRow columns values available = .ok row) :
    values.length = columns.length ∧ ∃ shape, EncodedRow (rowFields columns values) shape row := by
  simp only [encodeRow, bind_ok_iff, exists_unit, pure_ok_iff] at h
  obtain ⟨shape, hshape, -, rfl⟩ := h
  obtain ⟨hlength, hshaped⟩ := rowShape_ok hshape
  refine ⟨hlength, shape, hshaped, ?_⟩
  rw [writeRow, nullMap_eq, ← map_fst_rowFields, writeFixed_eq,
    variableFields_eq _ hshaped.variableCount_le]

namespace EncodedRow

variable {fields : List RowField} {shape : RowShape} {row : List UInt8}
  {definition : TableDefinition}

/-- A null map has at most 32 bytes. -/
theorem nullLen_le (h : EncodedRow fields shape row) : shape.nullLen ≤ 32 := by
  have hle := h.shaped.columnCount_le
  rw [h.shaped.nullLen_eq]
  omega

/-- The writer's length is that of the bytes. -/
theorem length_eq (h : EncodedRow fields shape row) : row.length = shape.length := by
  have hnull := h.nullLen_le
  rw [h.bytes_eq, h.shaped.length_eq, RowShape.withoutJumps, ← h.shaped.length_flatten_storedFields]
  simp only [List.length_append, h.shaped.length_fixedArea, List.length_take,
    Shaped.length_presenceMap, Nat.min_eq_left hnull]
  by_cases hcount : shape.variableCount = 0
  · have hjumps := h.shaped.jumps_eq
    rw [if_pos hcount] at hjumps
    rw [hjumps, hcount]
    simp only [gt_iff_lt, Nat.lt_irrefl, if_true, if_false, List.length_nil]
    omega
  · rw [if_pos (Nat.pos_of_ne_zero hcount), if_neg hcount, writeTrailer]
    simp only [List.length_append, List.length_map, List.length_reverse, length_boundariesFrom,
      h.shaped.length_storedFields, length_jumpEntries, List.length_singleton]
    omega

/-- The row begins with its column count. -/
theorem head_eq (h : EncodedRow fields shape row) :
    row[0]?.map UInt8.toNat = some shape.columnCount := by
  have hle := h.shaped.columnCount_le
  rw [h.bytes_eq, List.getElem?_append_left (by rw [h.shaped.length_fixedArea]; omega),
    h.shaped.fixedArea_head, Option.map_some, UInt8.toNat_ofNat', Nat.mod_eq_of_lt (by omega)]

/-- The row ends with its null bitmap. -/
theorem drop_nulls (h : EncodedRow fields shape row) :
    row.drop (row.length - shape.nullLen) = (Shaped.presenceMap fields).take shape.nullLen := by
  have hnull := h.nullLen_le
  have hlen : ((Shaped.presenceMap fields).take shape.nullLen).length = shape.nullLen := by
    rw [List.length_take, Shaped.length_presenceMap, Nat.min_eq_left hnull]
  have hbytes := h.bytes_eq
  rw [← List.append_assoc, ← List.append_assoc] at hbytes
  rw [hbytes, List.length_append, hlen, Nat.add_sub_cancel, List.drop_left' rfl]

/-- The bit of a field is read back. -/
theorem present_eq (h : EncodedRow fields shape row) {layout : RowLayout}
    (hcolumns : layout.columnCount = shape.columnCount)
    (hnull : layout.nullStart + shape.nullLen = row.length) {field : RowField}
    (hmem : field ∈ fields) :
    layout.present row field.storageOrdinal = field.present := by
  have hlt := h.shaped.storageOrdinal_lt hmem
  have hlen := h.shaped.nullLen_eq
  have hle := h.nullLen_le
  have hbyte : field.storageOrdinal / 8 < shape.nullLen := by omega
  have hstart : layout.nullStart = row.length - shape.nullLen := by omega
  have hget : row[layout.nullStart + field.storageOrdinal / 8]? =
      (Shaped.presenceMap fields)[field.storageOrdinal / 8]? := by
    rw [hstart, ← List.getElem?_drop, h.drop_nulls, List.getElem?_take_of_lt hbyte]
  have hin : field.storageOrdinal / 8 < (Shaped.presenceMap fields).length := by
    rw [Shaped.length_presenceMap]
    omega
  rw [← h.shaped.test_presenceMap hmem, RowLayout.present, hcolumns, hget, Bitmap.test,
    List.getD_eq_getElem?_getD, List.getElem?_eq_getElem hin, Option.any_some, Option.getD_some]
  simp [hlt]

/-! ## Acceptance -/

/-- The layout the reader finds. -/
def layout (fields : List RowField) (shape : RowShape) (row : List UInt8) : RowLayout :=
  if shape.variableCount = 0 then
    { fixedBoundary := 1 + maximum (fields.filterMap RowField.fixedEnd)
      offsetsStart := row.length - shape.nullLen, nullStart := row.length - shape.nullLen
      columnCount := shape.columnCount, variableCount := 0, jumps := 0 }
  else
    { fixedBoundary := 1 + maximum (fields.filterMap RowField.fixedEnd)
      offsetsStart := 1 + shape.fixedSize +
        (Shaped.storedFields fields shape.variableCount).flatten.length
      nullStart := row.length - shape.nullLen, columnCount := shape.columnCount
      variableCount := shape.variableCount, jumps := shape.jumps }

/-- The layout the reader should find. -/
theorem layout_eq (fields : List RowField) (shape : RowShape) (row : List UInt8) :
    (layout fields shape row).columnCount = shape.columnCount ∧
      (layout fields shape row).nullStart = row.length - shape.nullLen ∧
      (layout fields shape row).fixedBoundary =
        1 + maximum (fields.filterMap RowField.fixedEnd) := by
  unfold layout
  split <;> exact ⟨rfl, rfl, rfl⟩

/-- The trailer lies where the layout says. -/
theorem writtenTrailer (h : EncodedRow fields shape row) (hcount : shape.variableCount ≠ 0) :
    WrittenTrailer (1 + shape.fixedSize) (Shaped.storedFields fields shape.variableCount) row
      (layout fields shape row) ∧ jumpCount (row.length - shape.jumps) = shape.jumps := by
  have hstored := h.shaped.length_storedFields
  have hnull := h.nullLen_le
  have hlength := h.length_eq
  have hflat := h.shaped.length_flatten_storedFields
  have hjumps := h.shaped.jumps_eq
  have hwithout := h.shaped.length_eq
  rw [if_neg hcount] at hjumps
  have hdefinition : shape.withoutJumps fields = 1 + shape.fixedSize +
      (fields.map RowField.variableWidth).sum + shape.nullLen + (shape.variableCount + 2) := by
    rw [RowShape.withoutJumps, if_neg hcount]
  have hback : row.length - shape.jumps = shape.withoutJumps fields := by omega
  have htrailerLength : ∀ boundaries jumps, (writeTrailer boundaries jumps).length =
      boundaries.length + (jumps + 1) := by
    intro boundaries jumps
    rw [writeTrailer, List.length_append, List.length_append, List.length_map, List.length_reverse,
      length_jumpEntries, List.length_singleton]
  refine ⟨?_, by rw [hback, ← hjumps]⟩
  rw [layout, if_neg hcount]
  exact
    { count_eq := hstored.symm
      count_le := by rw [hstored]; exact h.shaped.variableCount_le
      offsets_eq := rfl
      null_eq := by
        dsimp only
        omega
      null_le := Nat.sub_le _ _
      jumps_eq := by
        -- the smallest trailer that can express the length
        rw [jumpCount] at hjumps
        dsimp only
        omega
      trailer_eq := by
        dsimp only
        have hfront : (Shaped.fixedArea fields shape ++
            (Shaped.storedFields fields shape.variableCount).flatten).length =
            1 + shape.fixedSize +
              (Shaped.storedFields fields shape.variableCount).flatten.length := by
          rw [List.length_append, h.shaped.length_fixedArea]
        have hbytes := h.bytes_eq
        rw [if_pos (Nat.pos_of_ne_zero hcount), ← List.append_assoc] at hbytes
        rw [hbytes, List.drop_left' hfront]
        refine List.take_left' ?_
        rw [htrailerLength, length_boundariesFrom] }

/-- An encoded row is accepted. -/
theorem validate (h : EncodedRow fields shape row) (hdefinition : definition.StoresRows)
    (hfields : List.Forall₂ StoredIn fields definition.columns) :
    RowLayout.validate row definition = .ok (layout fields shape row) := by
  obtain ⟨hfixed, hminimum⟩ := rowRequirement_eq h.shaped hfields
  obtain ⟨hstorage, hslots⟩ := variableCount_le hdefinition h.shaped hfields
  obtain ⟨hcolumns, hnull, hboundary⟩ := layout_eq fields shape row
  have hlength := h.length_eq
  have hle := h.nullLen_le
  have hlong : shape.nullLen + 1 ≤ row.length := by
    rw [hlength, h.shaped.length_eq, RowShape.withoutJumps]
    omega
  refine RowLayout.validate_ok_iff.mpr
    { columnCount_eq := by rw [hcolumns]; exact h.head_eq
      expected_lt := hdefinition.count_lt
      columnCount_le := ?_
      nullStart_eq := by
        rw [hcolumns, hnull, RowLayout.nullLen, ← h.shaped.nullLen_eq]
        omega
      nullStart_pos := by rw [hnull]; omega
      length_le := ?_
      shape := ?_ }
  · -- the last storage ordinal is one of the definition
    rw [hcolumns, h.shaped.columnCount_eq]
    refine maximum_le fun n hn => ?_
    obtain ⟨field, hfield, rfl⟩ := List.mem_map.mp hn
    obtain ⟨i, hi⟩ := List.mem_iff_getElem?.mp hfield
    obtain ⟨column, hcolumn, hstored⟩ := Lookup.getElem?_of_forall₂ hfields hi
    have hordinal : field.storageOrdinal = column.storageOrdinal := hstored.ordinal_eq
    have hlt := hdefinition.ordinal_lt column (List.mem_of_getElem? hcolumn)
    show field.storageOrdinal + 1 ≤ _
    omega
  · rw [hcolumns, hlength]
    refine h.shaped.length_le.trans (maximumLength_mono ?_)
    unfold rowRequirement at hminimum ⊢
    dsimp only at hminimum ⊢
    split
    · exact hstorage
    · exact hminimum.ge
  · rw [hcolumns, hminimum]
    split
    next hcount =>
      -- the row ends at its fixed fields, or after two reserved bytes
      have hsize := h.shaped.fixedSize_eq
      have hend : row.length - shape.nullLen = 1 + shape.fixedSize := by
        have hflat := h.shaped.length_flatten_storedFields
        have hjumps := h.shaped.jumps_eq
        rw [hcount] at hflat hjumps
        rw [if_pos rfl] at hjumps
        rw [hlength, h.shaped.length_eq, RowShape.withoutJumps, hcount, if_pos rfl, hjumps, ← hflat]
        rw [Shaped.storedFields, List.take_zero, List.map_nil, List.flatten_nil, List.length_nil]
        omega
      rw [hcount, if_pos rfl] at hsize
      simp only [RowLayout.validateFixedOnly, bind_ok_iff, exists_unit, refuseIf_ok_iff,
        pure_ok_iff]
      rw [hnull, hfixed, hend]
      refine ⟨by omega, ?_⟩
      rw [layout, if_pos hcount, hend]
      rfl
    next hcount =>
      obtain ⟨htrailer, hjumps⟩ := h.writtenTrailer hcount
      have hstored := h.shaped.length_storedFields
      have hsize := h.shaped.fixedSize_eq
      rw [if_neg hcount] at hsize
      have hjumpsEq : (layout fields shape row).jumps = shape.jumps := by
        rw [layout, if_neg hcount]
      refine htrailer.variableRow (by rw [hboundary, hfixed]) hcolumns ?_
        (by rw [hstored, hminimum])
        (by rw [hstored]; exact hstorage) (by rw [hstored]; exact hslots)
          (by rw [hjumpsEq]; exact hjumps)
      rw [hfixed, hsize]
      omega

/-! ## Fields -/

/-- A field in front of what is appended. -/
theorem take_drop_append_left {front back : List UInt8} {offset width : ℕ}
    (h : offset + width ≤ front.length) :
    ((front ++ back).drop offset).take width = (front.drop offset).take width := by
  rw [List.drop_append_of_le_length (by omega),
    List.take_append_of_le_length (by rw [List.length_drop]; omega)]

/-- A variable field lies between its boundaries. -/
theorem variableRange_eq (h : EncodedRow fields shape row) {field : RowField}
    (hmem : field ∈ fields)
    {index : ℕ} (hslot : field.slot = some index) :
    (layout fields shape row).variableRange row index =
      .ok (some (boundaryOf (1 + shape.fixedSize) (Shaped.storedFields fields shape.variableCount)
        index, boundaryOf (1 + shape.fixedSize) (Shaped.storedFields fields shape.variableCount)
          (index + 1))) := by
  have hlt := h.shaped.slot_lt hmem hslot
  have hle := h.shaped.variableCount_le
  have hstored := h.shaped.length_storedFields
  obtain ⟨htrailer, -⟩ := h.writtenTrailer (by omega)
  have hcount := htrailer.count_eq
  rw [RowLayout.variableRange, if_pos ⟨by omega, by omega⟩, succByte_eq (by omega),
    htrailer.located.boundary_eq (by omega), bind_ok_iff]
  refine ⟨_, rfl, ?_⟩
  rw [bind_ok_iff]
  refine ⟨_, rfl, ?_⟩
  rw [htrailer.located.boundary_eq (by omega), bind_ok_iff]
  refine ⟨_, rfl, ?_⟩
  rw [htrailer.boundaryAt_eq (by omega), htrailer.boundaryAt_eq (by omega)]
  rfl

/-- The bytes between the boundaries of a variable field are those of its value. -/
theorem variableBytes_eq (h : EncodedRow fields shape row) {field : RowField}
    (hmem : field ∈ fields)
    {index : ℕ} (hslot : field.slot = some index) :
    sliceBytes row
        (boundaryOf (1 + shape.fixedSize) (Shaped.storedFields fields shape.variableCount) index)
        (boundaryOf (1 + shape.fixedSize) (Shaped.storedFields fields shape.variableCount)
          (index + 1)) =
      .ok field.value.variableBytes := by
  have hlt := h.shaped.slot_lt hmem hslot
  have hstored := h.shaped.length_storedFields
  have hfield := h.shaped.storedFields_slot hmem hslot
  obtain ⟨htrailer, -⟩ := h.writtenTrailer (by omega)
  have hnext : index + 1 ≤ (Shaped.storedFields fields shape.variableCount).length := by omega
  have hstop := boundaryOf_mono (1 + shape.fixedSize)
    (Shaped.storedFields fields shape.variableCount) hnext
  rw [boundaryOf_length, ← htrailer.offsets_eq] at hstop
  have hnull := htrailer.null_eq
  have hle := htrailer.null_le
  rw [sliceBytes_eq (boundaryOf_mono _ _ (Nat.le_add_right index 1)) (by omega),
    boundaryOf_succ hfield, Nat.add_sub_cancel_left, Except.ok.injEq,
    boundaryOf, ← h.shaped.length_fixedArea]
  obtain ⟨rest, hrest⟩ : ∃ rest, row = Shaped.fixedArea fields shape ++
      ((Shaped.storedFields fields shape.variableCount).flatten ++ rest) := ⟨_, h.bytes_eq⟩
  rw [hrest, List.drop_length_add_append]
  exact take_drop_flatten hfield rfl rfl

/-- A field of an encoded row is the stored form of its value. -/
theorem field_eq (h : EncodedRow fields shape row) {ordinal : ℕ} {field : RowField}
    {column : ColumnDefinition} (hfield : fields[ordinal]? = some field)
    (hcolumn : definition.columns[ordinal]? = some column) (hstored : StoredIn field column) :
    RowView.field { raw := row, definition, layout := layout fields shape row } ordinal =
      .ok (some (storedField column field.value)) := by
  have hmem := List.mem_of_getElem? hfield
  obtain ⟨hcolumns, hnull, hboundary⟩ := layout_eq fields shape row
  have hlength := h.length_eq
  have hle := h.nullLen_le
  have hshape := h.shaped.length_eq
  rw [RowShape.withoutJumps] at hshape
  have hordinal : field.storageOrdinal = column.storageOrdinal := hstored.ordinal_eq
  have htype : field.column.physicalType = column.physicalType := hstored.physicalType_eq
  have hstorage : field.column.storage = column.storage := hstored.storage_eq
  have hsize : field.column.size = column.size := hstored.size_eq
  have hpresent := h.present_eq hcolumns (by rw [hnull]; omega) hmem
  rw [hordinal, RowField.present, htype] at hpresent
  unfold RowView.field storedField
  rw [hcolumn]
  dsimp only
  by_cases hboolean : column.physicalType = .boolean
  · -- a Boolean has no bytes of its own
    have hfixed : (layout fields shape row).fixedBoundary ≤ row.length := by
      have hsize := h.shaped.fixedSize_eq
      rw [hboundary]
      omega
    rw [if_pos hboolean, if_pos hboolean, sliceBytes_eq le_rfl hfixed, Nat.sub_self, List.take_zero]
    rfl
  rw [if_neg hboolean, if_neg hboolean, hpresent]
  by_cases hbit : field.value.present column.physicalType = true
  · rw [if_pos hbit, if_pos hbit]
    simp only [RowView.fieldRange]
    rcases hplace : column.storage with offset | index
    · have hplace' := hstorage.trans hplace
      have hend := h.shaped.fixedEnd_le hmem hplace' (htype ▸ hboolean)
      have hfield := h.shaped.fixedArea_field hmem hplace' (htype ▸ hboolean)
        (by rw [RowField.present, htype]; exact hbit)
      rw [hsize] at hend hfield
      have harea := h.shaped.length_fixedArea
      have hslice : sliceBytes row (1 + offset) (1 + offset + column.size) =
          .ok field.value.scalarBytes := by
        rw [sliceBytes_eq (Nat.le_add_right _ _) (by omega), Nat.add_sub_cancel_left, ← hfield]
        conv_lhs => rw [h.bytes_eq]
        rw [take_drop_append_left (by omega)]
      simp only [bind, Except.bind, hslice, pure, Except.pure]
    · have hslot : field.slot = some index := by
        rw [RowField.slot, hstorage, hplace]
      dsimp only
      rw [h.variableRange_eq hmem hslot]
      simp only [bind, Except.bind, h.variableBytes_eq hmem hslot, pure, Except.pure]
  · rw [if_neg hbit, if_neg hbit]

end EncodedRow

/-- A row is accepted and read back as it was written: each field is the stored form of its value,
and each presence bit is the value's. -/
theorem field_encodeRow {columns : List RowColumnLayout} {values : List RowValue} {available : ℕ}
    {row : List UInt8} {definition : TableDefinition} (hdefinition : definition.StoresRows)
    (hcolumns : List.Forall₂ LaysOut columns.zipIdx definition.columns)
    (h : encodeRow columns values available = .ok row) :
    ∃ layout, RowLayout.validate row definition = .ok layout ∧
      ∀ ordinal column value, definition.columns[ordinal]? = some column →
        values[ordinal]? = some value →
        RowView.field { raw := row, definition, layout } ordinal =
            .ok (some (storedField column value)) ∧
          layout.present row column.storageOrdinal = value.present column.physicalType := by
  obtain ⟨hlength, shape, hrow⟩ := encodeRow_ok h
  have hfields := forall₂_rowFields hlength hcolumns
  refine ⟨EncodedRow.layout (rowFields columns values) shape row, hrow.validate hdefinition hfields,
    ?_⟩
  intro ordinal column value hcolumn hvalue
  obtain ⟨field, hfield, hstored⟩ := Lookup.getElem?_of_forall₂ hfields.flip hcolumn
  have hsame : field.value = value := by
    rw [rowFields, List.getElem?_zipIdx, Option.map_eq_some_iff] at hfield
    obtain ⟨pair, hpair, rfl⟩ := hfield
    obtain ⟨-, hpair⟩ := List.getElem?_zip_eq_some.mp hpair
    rw [hvalue] at hpair
    exact (Option.some.inj hpair).symm
  obtain ⟨hcount, hnull, -⟩ := EncodedRow.layout_eq (rowFields columns values) shape row
  have hlong := hrow.shaped.length_eq
  rw [RowShape.withoutJumps, ← hrow.length_eq] at hlong
  have hpresent := hrow.present_eq hcount (by rw [hnull]; omega) (List.mem_of_getElem? hfield)
  have hordinal : field.storageOrdinal = column.storageOrdinal := hstored.ordinal_eq
  have htype : field.column.physicalType = column.physicalType := hstored.physicalType_eq
  rw [hordinal, RowField.present, hsame, htype] at hpresent
  refine ⟨?_, hpresent⟩
  rw [← hsame]
  exact hrow.field_eq hfield hcolumn hstored

end Jet3
