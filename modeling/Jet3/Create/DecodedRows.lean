import Jet3.Create.CreatedRows
import Jet3.Definition.RoundTrip
import Jet3.Row.DecodedRow

/-!
# Created rows, decoded

The definition of a created table and its rows are written from the same columns. The definition the
reader decodes places a column where the row writer put it, so the rows of a created table decode to
the values they were given.

* `initialRowLayout_laysOut` says that the two placements are one;
* `withRows_decodes` is the statement about the file.
-/

namespace Jet3

open Outcome LongValue

/-! ## Placement -/

/-- The layout of a column that follows the columns `columns.take entry.2`. -/
def placedLayout (columns : List ColumnSpec) (entry : ColumnSpec × ℕ) : RowColumnLayout :=
  { physicalType := entry.1.physicalType, storage := placement (columns.take entry.2) entry.1
    size := entry.1.size, storageOrdinal := none }

/-- The row layout is that of the encoded definition. -/
theorem initialRowLayout_ok {columns : List InitialColumn} {layout : List RowColumnLayout}
    (h : initialRowLayout columns = .ok layout) :
    layout = (columns.map InitialColumn.spec).zipIdx.map
      (placedLayout (columns.map InitialColumn.spec)) := by
  simp only [initialRowLayout, bind_ok_iff, pure_ok_iff] at h
  obtain ⟨state, hstate, rfl⟩ := h
  have hloop := foldlM_ok_induction (fun done state =>
      state.2 = cursorAfter (done.map fun entry => entry.1.spec) ∧
        state.1 = done.map fun entry =>
          placedLayout (columns.map InitialColumn.spec) (entry.1.spec, entry.2))
    ⟨rfl, rfl⟩
    (by
      rintro done ⟨column, ordinal⟩ rest ⟨layouts, cursor⟩ state' hsplit ⟨hcursor, hlayouts⟩ hstep
      dsimp only at hcursor hlayouts
      obtain ⟨hnumber, -, htake⟩ := Lookup.zipIdx_split hsplit
      simp only [layoutStep, bind_ok_iff, pure_ok_iff, Prod.exists, hcursor] at hstep
      obtain ⟨resolved, cursor', hresolve, rfl⟩ := hstep
      obtain ⟨hresolves, hcursor'⟩ := resolveColumn_ok hresolve
      refine ⟨by rw [List.map_append]; exact hcursor', ?_⟩
      -- the columns before this one are those the cursor has seen
      have hearlier : (columns.map InitialColumn.spec).take ordinal =
          done.map fun entry => entry.1.spec := by
        dsimp only at htake
        rw [← List.map_take, htake, List.map_map]
        rfl
      rw [List.map_append, hlayouts, List.map_singleton, placedLayout, hearlier,
        ← hresolves.storage_eq]) hstate
  rw [hloop.2, List.zipIdx_map, List.map_map]
  rfl

/-- A table is read with the placement its rows were written with. -/
theorem initialRowLayout_laysOut {columns : List InitialColumn} {layout : List RowColumnLayout}
    {defined : List ColumnDefinition} (h : initialRowLayout columns = .ok layout)
    (hdefined : DescribesColumns (columns.map InitialColumn.spec) defined) :
    List.Forall₂ LaysOut layout.zipIdx defined := by
  rw [initialRowLayout_ok h]
  refine List.forall₂_iff_get.mpr ⟨?_, fun i hi hi' => ?_⟩
  · rw [List.length_zipIdx, List.length_map]
    exact hdefined.length_eq
  · have hcolumn := (List.forall₂_iff_get.mp hdefined).2 i (by simpa using hi) hi'
    simp only [List.get_eq_getElem, List.getElem_zipIdx, List.getElem_map, Nat.zero_add]
      at hcolumn ⊢
    obtain ⟨hdescribes, -⟩ := hcolumn
    exact ⟨hdescribes.physicalType_eq.symm, hdescribes.storage_eq.symm, hdescribes.size_eq.symm,
      hdescribes.storageOrdinal_eq.symm⟩

/-! ## Values -/

/-- What a decoded Memo or OLE value leads to in the file. -/
def LongValue.Yields (file : PageFile) (payload : List UInt8) : LongValue → Prop
  | .inline _ value => value.rawBytes = payload
  | .external reference => reference.length = payload.length ∧
      ∃ fuel chunks, LongValueCursor.drain file fuel (.new reference) = .ok (some chunks) ∧
        chunks.flatMap (fun chunk => chunk.value.rawBytes) = payload

/-- What decoding the field of a value gives: the value, or one that leads to its payload. -/
def Decodes (file : PageFile) (source : RowLocator) (physicalType : ColumnPhysicalType)
    (codePage : TextCodePage) (value : RowValue)
    (decoded : Except ValueFault (Option ValueKind)) : Prop :=
  match value.longPayload with
  | none => decoded = ((value.readKind physicalType source codePage).mapError .error).map some
  | some payload =>
    Readable (if physicalType = .memo then .memo else .ole) codePage payload →
      (payload = [] ∧ physicalType = .longBinary ∧ decoded = .ok (some .null)) ∨
        ∃ stored, decoded = .ok (some (.longValue stored)) ∧ stored.Yields file payload

/-- A lowered value that reads back decodes. -/
theorem ReadsBack.decodes {file : PageFile} {source : RowLocator} {value lowered : RowValue}
    {physicalType : ColumnPhysicalType} (h : ReadsBack file source value lowered)
    (htype : value.longPayload ≠ none → physicalType = value.longType) (codePage : TextCodePage) :
    Decodes file source physicalType codePage value
      (((lowered.readKind physicalType source codePage).mapError .error).map some) := by
  unfold ReadsBack at h
  unfold Decodes
  cases hpayload : value.longPayload with
  | none =>
    rw [hpayload] at h
    dsimp only at h ⊢
    rw [h]
  | some payload =>
    rw [hpayload] at h htype
    dsimp only at h ⊢
    intro hreadable
    rcases h with ⟨hempty, hlong, rfl⟩ | ⟨field, rfl, hreads⟩
    · -- an empty long binary value is stored as null
      have hbinary := (htype (Option.some_ne_none payload)).trans hlong
      rw [hbinary]
      exact .inl ⟨hempty, rfl, rfl⟩
    · right
      rcases hreads _ codePage hreadable with ⟨header, stored, hdecode, hbytes⟩ |
        ⟨reference, fuel, chunks, hdecode, hlength, hdrain, hbytes⟩
      · have hread : RowValue.readKind physicalType source codePage (.longValue field) =
            .ok (.longValue (.inline header stored)) := by
          rw [RowValue.readKind, hdecode]
          rfl
        rw [hread]
        exact ⟨_, rfl, hbytes⟩
      · have hread : RowValue.readKind physicalType source codePage (.longValue field) =
            .ok (.longValue (.external reference)) := by
          rw [RowValue.readKind, hdecode]
          rfl
        rw [hread]
        exact ⟨_, rfl, hlength, fuel, chunks, hdrain, hbytes⟩

namespace InitialTable

variable {table : InitialTable} {rows : List (List RowValue)} {planned : InitialRows}

/-- The rows of a created table are accepted under every decoded definition that describes its
columns, and every field decodes to the value it was given. -/
theorem withRows_decodes {file : PageFile} {bytes : List UInt8} {maps : TableMapLocations}
    {pageCount : ℕ} {definition : TableDefinition} (h : table.withRows rows = .ok planned)
    (hfile : planned.InFile table file)
    (hdefinition : decodeDefinition bytes table.root maps pageCount = .ok definition)
    (hcolumns : DescribesColumns (table.columns.map InitialColumn.spec) definition.columns) :
    List.Forall₂ (fun given row =>
      KeepsOthers (planned.autoIncrement.map InitialAutoIncrement.column) given row.values ∧
      StoredAt file table.root row.locator row.bytes ∧
      row.values.length = definition.columns.length ∧
      ∃ layout, RowLayout.validate row.bytes definition = .ok layout ∧
        ∀ ordinal column value, definition.columns[ordinal]? = some column →
          row.values[ordinal]? = some value → ∀ codePage,
          Decodes file row.locator column.physicalType codePage value
            ((RowView.value { raw := row.bytes, definition, layout } row.locator ordinal
              codePage).map (Option.map DecodedValue.kind)))
      rows planned.placed := by
  refine (withRows_reads h hfile).2.imp ?_
  rintro given row ⟨hstored, ⟨layout, hlayout, htyped, hencode⟩, hreads, hkeeps⟩
  have hlaysOut := initialRowLayout_laysOut hlayout hcolumns
  obtain ⟨rowLayout, hvalid, hfields⟩ :=
    field_encodeRow (decodeDefinition_storesRows hdefinition) hlaysOut hencode
  have hlength : layout.length = definition.columns.length := by
    rw [← hlaysOut.length_eq, List.length_zipIdx]
  refine ⟨hkeeps, hstored, ?_, rowLayout, hvalid,
    fun ordinal column value hcolumn hvalue codePage => ?_⟩
  · rw [hreads.length_eq, (length_eq_of_encodeRow hencode).1, hlength]
  · obtain ⟨lowered, hlowered, hback⟩ := Lookup.getElem?_of_forall₂ hreads hvalue
    rw [value_of_encodeRow hlaysOut hencode hcolumn hlowered
      (hfields ordinal column lowered hcolumn hlowered) row.locator codePage]
    refine hback.decodes (fun hpayload => ?_) codePage
    -- the types of the layout are those of the definition
    obtain ⟨entry, hentry, hplaced⟩ := Lookup.getElem?_of_forall₂ hlaysOut.flip hcolumn
    rw [List.getElem?_zipIdx, Option.map_eq_some_iff] at hentry
    obtain ⟨position, hposition, rfl⟩ := hentry
    rw [← hplaced.physicalType_eq]
    exact htyped ordinal position value hposition hvalue hpayload

/-- The description of a column, field by field. -/
theorem describesColumn_iff {columns : List ColumnSpec} {entry : ColumnSpec × ℕ} {raw : RawColumn} :
    DescribesColumn columns entry raw ↔
      raw.ordinal = entry.2 ∧ raw.storageOrdinal = entry.2 ∧ raw.physicalType =
        entry.1.physicalType ∧
        raw.size = entry.1.size ∧ raw.storage = placement (columns.take entry.2) entry.1 ∧
        (raw.autoIncrement = true ↔ entry.1.columnType = .autoIncrement) := by
  constructor
  · intro h
    exact ⟨h.ordinal_eq, h.storageOrdinal_eq, h.physicalType_eq, h.size_eq, h.storage_eq,
      h.autoIncrement_iff⟩
  · rintro ⟨hordinal, hstorageOrdinal, htype, hsize, hstorage, hauto⟩
    exact ⟨hordinal, hstorageOrdinal, htype, hsize, hstorage, hauto⟩

instance (columns : List ColumnSpec) (entry : ColumnSpec × ℕ) (raw : RawColumn) :
    Decidable (DescribesColumn columns entry raw) :=
  decidable_of_iff' _ describesColumn_iff

/-- The definition written for the table of notes. -/
def notesDefinition : TableDefinitionSpec :=
  { notesSpec with columns := notes.columns.map InitialColumn.spec }

/-- The texts of the notes are decoded. -/
theorem withRows_decodes_notes : ∃ planned file definition,
    notes.withRows noteRows = .ok planned ∧ planned.placed.length = 3 ∧
      ∀ row ∈ planned.placed, StoredAt file notes.root row.locator row.bytes ∧
        ∃ layout, RowLayout.validate row.bytes definition = .ok layout ∧
          ∀ column value, definition.columns[1]? = some column → row.values[1]? = some value →
            Decodes file row.locator column.physicalType .windows1252 value
              ((RowView.value { raw := row.bytes, definition, layout } row.locator 1
                .windows1252).map (Option.map DecodedValue.kind)) := by
  obtain ⟨planned, hplanned, hcount, -⟩ := withRows_notes
  obtain ⟨file, hfile⟩ := exists_inFile notes planned
  obtain ⟨bytes, -, hdecoded⟩ := exists_ok_and
    (x := encodeTableDefinition notesDefinition 2048 ⟨[0x09, 0x04, 0xe4, 0x04], rfl⟩)
    (p := fun bytes => (decodeDefinition bytes notes.root (definitionMaps bytes) 9).toOption.any
      fun definition => decide
        (DescribesColumns (notes.columns.map InitialColumn.spec) definition.columns))
          (by decide +kernel)
  obtain ⟨definition, hdefinition, hcolumns⟩ := exists_ok_and hdecoded
  have hrows := withRows_decodes hplanned hfile hdefinition (of_decide_eq_true hcolumns)
  refine ⟨planned, file, definition, hplanned, hcount, fun row hrow => ?_⟩
  obtain ⟨i, hi⟩ := List.mem_iff_getElem?.mp hrow
  obtain ⟨given, -, -, hstored, -, layout, hvalid, hvalues⟩ :=
    Lookup.getElem?_of_forall₂ hrows.flip hi
  exact ⟨hstored, layout, hvalid, fun column value hcolumn hvalue =>
    hvalues 1 column value hcolumn hvalue .windows1252⟩

end InitialTable

end Jet3
