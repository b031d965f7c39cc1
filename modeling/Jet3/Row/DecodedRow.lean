import Jet3.Row.Canonical
import Jet3.Row.DecodedValue
import Jet3.Row.RoundTrip
import Mathlib.Tactic.IntervalCases

/-!
# Decoded rows

The typed values of an encoded row, for definitions the decoder accepts.

* `decodeDefinition_storesRows` says that a decoded definition can store rows;
* `Suits` says which values a column takes, and `RowValue.readKind` what each reads back as;
* `value_encodeRow` is the round trip of typed values.
-/

namespace Jet3

open Outcome

/-! ## Decoded definitions -/

/-- What a decoded column record satisfies. -/
structure ColumnStored (context : ColumnContext) (column : RawColumn) : Prop where
  ordinal_lt : column.storageOrdinal < context.storageCount
  slot_lt : ∀ index, column.storage = .variable index → index < context.variableCount
  slot_le : ∀ index, column.storage = .variable index → index ≤ column.storageOrdinal

/-- A variable column stores the counter it was given. -/
theorem decodeStorage_counter {context : ColumnContext} {scan scan' : ColumnScan}
    {fields : RecordFields} {index : ℕ}
    (h : decodeStorage context scan fields = .ok (.variable index, scan')) :
    index = fields.variableCounter := by
  unfold decodeStorage at h
  dsimp only at h
  split at h
  · simp only [decodeVariable, bind_ok_iff, exists_unit, pure_ok_iff, Prod.mk.injEq,
      ColumnStorageClass.variable.injEq] at h
    obtain ⟨-, -, rfl, -⟩ := h
    rfl
  split at h
  · simp only [decodeFixed, bind_ok_iff, exists_unit] at h
    obtain ⟨-, -, h⟩ := h
    split at h <;> simp at h
  · cases h

/-- A decoded column is stored where its record says. -/
theorem decodeRecord_stored {context : ColumnContext} {ordinal : ℕ} {record : Bytes columnRecordLen}
    {scan scan' : ColumnScan} (h : decodeRecord context ordinal record scan = .ok scan') :
    ∃ column, scan'.columns = scan.columns ++ [column] ∧ ColumnStored context column := by
  simp only [decodeRecord, checkOrder, bind_ok_iff, exists_unit, refuseIf_ok_iff, pure_ok_iff,
    Prod.exists, not_or, not_le, not_lt] at h
  obtain ⟨⟨⟨hordinal, -⟩, -, -, hcounter, -⟩, -, -, physicalType, -, -, -, storage, after, hstorage,
    rfl⟩ := h
  refine ⟨_, rfl, hordinal, ?_, ?_⟩
  · rintro index hindex
    dsimp only at hindex
    rw [hindex] at hstorage
    exact decodeStorage_variable hstorage
  · rintro index hindex
    dsimp only at hindex
    rw [hindex] at hstorage
    rw [decodeStorage_counter hstorage]
    exact Nat.not_lt.mp (Nat.not_lt.mpr hcounter)

/-- So are all columns. -/
theorem decodeColumns_stored {context : ColumnContext} {total : ℕ} {columns : List ColumnDefinition}
    {rest rest' : List UInt8} (h : decodeColumns context total rest = .ok (columns, rest')) :
    ∀ column ∈ columns, ColumnStored context column.toRawColumn := by
  simp only [decodeColumns, bind_ok_iff, exists_unit, Prod.exists] at h
  obtain ⟨scan, rest₁, hrecords, -, hnames⟩ := h
  have hscan : ∀ raw ∈ scan.columns, ColumnStored context raw := by
    refine foldlM_ok_induction (fun _ state => ∀ raw ∈ state.1.columns, ColumnStored context raw)
      (by simp) ?_ hrecords
    rintro _ ordinal _ state state' - hstate hstep
    simp only [decodeNextRecord, bind_ok_iff, pure_ok_iff, Prod.exists] at hstep
    obtain ⟨record, rest₂, -, scan', hrecord, rfl⟩ := hstep
    obtain ⟨column, hcolumns, hstored⟩ := decodeRecord_stored hrecord
    intro raw hraw
    rw [hcolumns] at hraw
    rcases List.mem_append.mp hraw with hold | hnew
    · exact hstate raw hold
    · rwa [List.mem_singleton.mp hnew]
  obtain ⟨hraws, -, -⟩ := decodeColumnNames_bytes hnames
  intro column hcolumn
  exact hscan column.toRawColumn (hraws ▸ List.mem_map_of_mem hcolumn)

/-- A decoded definition can store rows. -/
theorem decodeDefinition_storesRows {bytes : List UInt8} {root : PageNumber}
    {maps : TableMapLocations}
    {pageCount : ℕ} {definition : TableDefinition}
    (h : decodeDefinition bytes root maps pageCount = .ok definition) : definition.StoresRows := by
  simp only [decodeDefinition, bind_ok_iff, mapError_ok_iff, pure_ok_iff, Prod.exists] at h
  obtain ⟨header, _, -, _, -, context, hcontext, _, _, -, columns, _, hcolumns, _, _, _, -, _, -, _,
    -, rfl⟩ := h
  simp only [decodeCounts, bind_ok_iff, exists_unit, refuseIf_ok_iff, pure_ok_iff, not_or, not_lt,
    gt_iff_lt] at hcontext
  obtain ⟨⟨-, hstorage⟩, -, -, rfl⟩ := hcontext
  have hstored := decodeColumns_stored hcolumns
  exact
    { count_lt := Nat.lt_succ_of_le hstorage
      ordinal_lt := fun column hcolumn => (hstored column hcolumn).ordinal_lt
      slot_lt := fun column hcolumn => (hstored column hcolumn).slot_lt
      slot_le := fun column hcolumn => (hstored column hcolumn).slot_le }

/-- The placement a definition gives its own columns. -/
theorem laysOut_rowLayout (columns : List ColumnDefinition) :
    List.Forall₂ LaysOut (columns.map ColumnDefinition.rowLayout).zipIdx columns := by
  refine List.forall₂_iff_get.mpr ⟨by simp, fun i hi hi' => ?_⟩
  simp only [List.get_eq_getElem, List.getElem_zipIdx, List.getElem_map]
  exact ⟨rfl, rfl, rfl, rfl⟩

/-! ## Typed values -/

/-- The value a field of a column reads back as. -/
def RowValue.readKind (physicalType : ColumnPhysicalType) (source : RowLocator)
    (codePage : TextCodePage) : RowValue → Except ValueError ValueKind
  | .boolean value => .ok (.boolean value)
  | .byte value => .ok (.byte value)
  | .integer value => .ok (.integer value)
  | .long value => .ok (.long value)
  | .currency scaled => .ok (.currency scaled)
  | .single bits => .ok (.single bits)
  | .double bits => .ok (.double bits)
  | .dateTime bits => .ok (.dateTime bits)
  | .guid bytes => .ok (.guid bytes)
  -- an empty binary value is stored as null
  | .binary bytes => .ok (if bytes = [] then .null else .binary bytes)
  | .text bytes => do
    let text ← (decodeText bytes codePage).mapError .text
    return .text text
  | .longValue bytes => do
    let kind := if physicalType = .memo then LongValueKind.memo else .ole
    let value ← (LongValue.decode bytes source kind codePage).mapError .longValue
    return .longValue value
  | _ => .ok (if physicalType = .boolean then .boolean false else .null)

/-- The values a column takes. -/
inductive Suits (column : RowColumnLayout) : RowValue → Prop
  | null : Suits column .null
  | boolean (value : Bool) (htype : column.physicalType = .boolean) : Suits column (.boolean value)
  | text (bytes : List UInt8) (htype : column.physicalType = .text) : Suits column (.text bytes)
  | binary (bytes : List UInt8) (htype : column.physicalType = .binary)
      (hstorage : column.storage.isFixed = false) : Suits column (.binary bytes)
  | longValue (bytes : List UInt8)
      (htype : column.physicalType = .longBinary ∨ column.physicalType = .memo)
      (hstorage : column.storage.isFixed = false) : Suits column (.longValue bytes)
  | scalar {value : RowValue} (hvalue : value ≠ .null)
    (hfits : value.fits column.physicalType = true)
      (hstorage : column.storage.isFixed = true) : Suits column value

/-- A value that has a width is of the type of its column. -/
theorem suits_of_valueWidth {ordinal width : ℕ} {column : RowColumnLayout} {value : RowValue}
    (h : valueWidth ordinal column value = .ok width) : Suits column value := by
  unfold valueWidth at h
  -- boolean, text, binary, the two long kinds, and all other scalars
  dsimp only at h
  split at h
  next htype =>
    split at h
    next =>
      split at h
      · exact .null
      · exact .boolean _ htype
      · cases h
    next => cases h
  next htype =>
    split at h
    · exact .null
    · exact .text _ htype
    · cases h
  next htype =>
    split at h
    next => cases h
    next hfixed =>
      split at h
      · exact .null
      · exact .binary _ htype (Bool.eq_false_iff.mpr hfixed)
      · cases h
  next htype =>
    split at h
    next => cases h
    next hfixed =>
      split at h
      · exact .null
      · exact .longValue _ (.inl htype) (Bool.eq_false_iff.mpr hfixed)
      · cases h
  next htype =>
    split at h
    next => cases h
    next hfixed =>
      split at h
      · exact .null
      · exact .longValue _ (.inr htype) (Bool.eq_false_iff.mpr hfixed)
      · cases h
  next =>
    split at h
    next => cases h
    next hfixed =>
      split at h
      next hfits =>
        by_cases hnull : value = .null
        · rw [hnull]
          exact .null
        · exact .scalar hnull hfits (not_not.mp hfixed)
      next => cases h

/-- A number is taken from its bytes. -/
theorem takeNumber_leBytes {physicalType : ColumnPhysicalType} {width n : ℕ} (h : n < 256 ^ width) :
    takeNumber physicalType (leBytes width n) width = .ok n := by
  simp only [takeNumber, expectWidth, bind_ok_iff, exists_unit, refuseIf_ok_iff, pure_ok_iff]
  exact ⟨fun hne => hne (length_leBytes width n), leValue_leBytes_of_lt h⟩

/-- A GUID is shown as it was stored. -/
theorem displayBytes_guidBytes (d : Vector UInt8 16) : displayBytes (guidBytes d) = d := by
  refine Vector.ext fun i hi => ?_
  interval_cases i <;> rfl

/-- A scalar is read back from its bytes. -/
theorem decodeValueKind_scalar {physicalType : ColumnPhysicalType} {value : RowValue}
    (hvalue : value ≠ .null) (hfits : value.fits physicalType = true) (bit : Bool)
    (source : RowLocator)
    (codePage : TextCodePage) :
    decodeValueKind physicalType value.scalarBytes bit source codePage =
      value.readKind physicalType source codePage := by
  -- every number is written at its width and read back from it
  cases value with
  | byte raw =>
    obtain rfl : physicalType = .byte := of_decide_eq_true hfits
    show (do let number ← takeNumber .byte [raw] 1; pure (ValueKind.byte (UInt8.ofNat number))) = _
    have hnumber : takeNumber .byte [raw] 1 = .ok raw.toNat := by
      simp [takeNumber, expectWidth, refuseIf, leValue, bind, Except.bind, pure, Except.pure]
    rw [hnumber]
    exact congrArg (fun raw => Except.ok (ValueKind.byte raw)) UInt8.ofNat_toNat
  | integer raw =>
    obtain rfl : physicalType = .integer := of_decide_eq_true hfits
    show (do let number ← takeNumber .integer (leBytes 2 raw.toUInt16.toNat) 2
             pure (ValueKind.integer (UInt16.ofNat number).toInt16)) = _
    rw [takeNumber_leBytes raw.toUInt16.toNat_lt]
    exact congrArg (fun bits : UInt16 => Except.ok (ValueKind.integer bits.toInt16))
      UInt16.ofNat_toNat
  | long raw =>
    obtain rfl : physicalType = .long := of_decide_eq_true hfits
    show (do let number ← takeNumber .long (leBytes 4 raw.toUInt32.toNat) 4
             pure (ValueKind.long (UInt32.ofNat number).toInt32)) = _
    rw [takeNumber_leBytes raw.toUInt32.toNat_lt]
    exact congrArg (fun bits : UInt32 => Except.ok (ValueKind.long bits.toInt32)) UInt32.ofNat_toNat
  | currency scaled =>
    obtain rfl : physicalType = .currency := of_decide_eq_true hfits
    show (do let number ← takeNumber .currency (leBytes 8 scaled.toUInt64.toNat) 8
             pure (ValueKind.currency (UInt64.ofNat number).toInt64)) = _
    rw [takeNumber_leBytes scaled.toUInt64.toNat_lt]
    exact congrArg (fun bits : UInt64 => Except.ok (ValueKind.currency bits.toInt64))
      UInt64.ofNat_toNat
  | single bits =>
    obtain rfl : physicalType = .single := of_decide_eq_true hfits
    show (do let number ← takeNumber .single (leBytes 4 bits.toNat) 4
             pure (ValueKind.single (UInt32.ofNat number))) = _
    rw [takeNumber_leBytes bits.toNat_lt]
    exact congrArg (fun bits => Except.ok (ValueKind.single bits)) UInt32.ofNat_toNat
  | double bits =>
    obtain rfl : physicalType = .double := of_decide_eq_true hfits
    show (do let number ← takeNumber .double (leBytes 8 bits.toNat) 8
             pure (ValueKind.double (UInt64.ofNat number))) = _
    rw [takeNumber_leBytes bits.toNat_lt]
    exact congrArg (fun bits => Except.ok (ValueKind.double bits)) UInt64.ofNat_toNat
  | dateTime bits =>
    obtain rfl : physicalType = .dateTime := of_decide_eq_true hfits
    show (do let number ← takeNumber .dateTime (leBytes 8 bits.toNat) 8
             pure (ValueKind.dateTime (UInt64.ofNat number))) = _
    rw [takeNumber_leBytes bits.toNat_lt]
    exact congrArg (fun bits => Except.ok (ValueKind.dateTime bits)) UInt64.ofNat_toNat
  | guid d =>
    obtain rfl : physicalType = .guid := of_decide_eq_true hfits
    show (do expectWidth .guid (guidBytes d) 16; pure (ValueKind.guid (displayBytes (guidBytes d))))
      = _
    rw [displayBytes_guidBytes]
    rfl
  | null => exact absurd rfl hvalue
  | _ => cases hfits

/-- The kind of a decoded value does not depend on where it was read. -/
theorem map_kind_decodeValue (physicalType : ColumnPhysicalType) (raw : List UInt8) (bit : Bool)
    (source : RowLocator) (codePage : TextCodePage) :
    (decodeValue physicalType (.bytes raw) bit source codePage).map DecodedValue.kind =
      decodeValueKind physicalType raw bit source codePage := by
  show Except.map DecodedValue.kind (do
    let kind ← decodeValueKind physicalType raw bit source codePage
    pure { raw := some raw, kind }) = _
  cases decodeValueKind physicalType raw bit source codePage <;> rfl

/-- A scalar is present in any column it suits. -/
theorem present_scalar {physicalType : ColumnPhysicalType} {value : RowValue}
    (hvalue : value ≠ .null)
    (hfits : value.fits physicalType = true) :
    value.present physicalType = true ∧ physicalType ≠ .boolean := by
  cases value <;> first
    | exact absurd rfl hvalue
    | cases hfits
    | (rw [of_decide_eq_true hfits]
       exact ⟨rfl, by decide⟩)

/-- The stored form of a value decodes to the value. -/
theorem decodeValue_storedField {column : ColumnDefinition} {layout : RowColumnLayout}
    {value : RowValue}
    (htype : layout.physicalType = column.physicalType) (hplace : layout.storage = column.storage)
    (h : Suits layout value) (source : RowLocator) (codePage : TextCodePage) :
    (decodeValue column.physicalType (storedField column value) (value.present column.physicalType)
      source codePage).map DecodedValue.kind =
        value.readKind column.physicalType source codePage := by
  -- what is not fixed stands in a slot
  have hvariable : layout.storage.isFixed = false → ∃ index, column.storage = .variable index := by
    rw [hplace]
    cases column.storage with
    | fixed offset => exact fun hfixed => absurd hfixed.symm Bool.false_ne_true
    | _ => exact fun _ => ⟨_, rfl⟩
  cases h with
  | null =>
    by_cases hboolean : column.physicalType = .boolean
    · rw [storedField, if_pos hboolean, hboolean]
      rfl
    · have habsent : RowValue.present column.physicalType .null = false := by
        cases column.physicalType <;> rfl
      have hread : RowValue.readKind column.physicalType source codePage .null =
          .ok (if column.physicalType = .boolean then .boolean false else .null) := rfl
      rw [storedField, if_neg hboolean, habsent, hread, if_neg hboolean]
      rfl
  | boolean bit hboolean =>
    rw [htype] at hboolean
    rw [storedField, if_pos hboolean, hboolean]
    rfl
  | text bytes htext =>
    rw [htype] at htext
    have hpresent : RowValue.present .text (.text bytes) = true := rfl
    have hstored : storedField column (.text bytes) = .bytes bytes := by
      rw [storedField, htext, if_neg (by decide), if_pos hpresent]
      cases column.storage <;> rfl
    rw [hstored, map_kind_decodeValue, htext]
    rfl
  | binary bytes hbinary hfixed =>
    rw [htype] at hbinary
    obtain ⟨index, hstorage⟩ := hvariable hfixed
    rw [storedField, hbinary, if_neg (by decide), hstorage]
    cases bytes <;> rfl
  | longValue bytes hlong hfixed =>
    rw [htype] at hlong
    obtain ⟨index, hstorage⟩ := hvariable hfixed
    have hstored : storedField column (.longValue bytes) = .bytes bytes := by
      rw [storedField, hstorage]
      rcases hlong with hlong | hlong <;> rw [hlong] <;> rfl
    rw [hstored, map_kind_decodeValue]
    rcases hlong with hlong | hlong <;> rw [hlong] <;> rfl
  | scalar hvalue hfits hfixed =>
    rw [htype] at hfits
    obtain ⟨hpresent, hboolean⟩ := present_scalar hvalue hfits
    have hstored : storedField column value = .bytes value.scalarBytes := by
      rw [storedField, if_neg hboolean, if_pos hpresent]
      rw [hplace] at hfixed
      cases hstorage : column.storage with
      | fixed offset => rfl
      | _ =>
        rw [hstorage] at hfixed
        cases hfixed
    rw [hstored, map_kind_decodeValue, decodeValueKind_scalar hvalue hfits]

/-- What a column of a row decodes to, where its field and its presence are those of a value. -/
theorem value_of_encodeRow {columns : List RowColumnLayout} {values : List RowValue} {available : ℕ}
    {row : List UInt8} {definition : TableDefinition} {layout : RowLayout}
    (hcolumns : List.Forall₂ LaysOut columns.zipIdx definition.columns)
    (h : encodeRow columns values available = .ok row) {ordinal : ℕ} {column : ColumnDefinition}
    {value : RowValue} (hcolumn : definition.columns[ordinal]? = some column)
    (hvalue : values[ordinal]? = some value)
    (hread : RowView.field { raw := row, definition, layout } ordinal =
        .ok (some (storedField column value)) ∧
      layout.present row column.storageOrdinal = value.present column.physicalType)
    (source : RowLocator) (codePage : TextCodePage) :
    (RowView.value { raw := row, definition, layout } source ordinal codePage).map
        (Option.map DecodedValue.kind) =
      ((value.readKind column.physicalType source codePage).mapError .error).map some := by
  obtain ⟨hlength, shape, hrow⟩ := encodeRow_ok h
  obtain ⟨field, hmem, hstored⟩ :=
    Lookup.getElem?_of_forall₂ (forall₂_rowFields hlength hcolumns).flip hcolumn
  have hsame : field.value = value := by
    rw [rowFields, List.getElem?_zipIdx, Option.map_eq_some_iff] at hmem
    obtain ⟨pair, hpair, rfl⟩ := hmem
    obtain ⟨-, hpair⟩ := List.getElem?_zip_eq_some.mp hpair
    rw [hvalue] at hpair
    exact (Option.some.inj hpair).symm
  obtain ⟨position, width, hwidth⟩ := (hrow.shaped.admits field (List.mem_of_getElem? hmem)).width
  have hdecoded := decodeValue_storedField hstored.physicalType_eq hstored.storage_eq
    (suits_of_valueWidth hwidth) source codePage
  rw [hsame] at hdecoded
  rw [RowView.value_of_field source codePage hcolumn hread.1, hread.2, ← hdecoded]
  cases decodeValue column.physicalType (storedField column value)
    (value.present column.physicalType)
    source codePage <;> rfl

/-- The typed values of an encoded row are those it was encoded from. -/
theorem value_encodeRow {columns : List RowColumnLayout} {values : List RowValue} {available : ℕ}
    {row : List UInt8} {definition : TableDefinition} (hdefinition : definition.StoresRows)
    (hcolumns : List.Forall₂ LaysOut columns.zipIdx definition.columns)
    (h : encodeRow columns values available = .ok row) :
    ∃ layout, RowLayout.validate row definition = .ok layout ∧
      ∀ ordinal column value, definition.columns[ordinal]? = some column →
        values[ordinal]? = some value → ∀ source codePage,
        (RowView.value { raw := row, definition, layout } source ordinal codePage).map
            (Option.map DecodedValue.kind) =
          ((value.readKind column.physicalType source codePage).mapError .error).map some := by
  obtain ⟨layout, hvalidate, hfields⟩ := field_encodeRow hdefinition hcolumns h
  refine ⟨layout, hvalidate, fun ordinal column value hcolumn hvalue source codePage => ?_⟩
  exact value_of_encodeRow hcolumns h hcolumn hvalue (hfields ordinal column value hcolumn hvalue)
    source codePage

/-- A row of a table whose Text column was dropped, as the writer lays it out. -/
theorem value_encodeRow_dropped :
    ∃ definition row layout, RowLayout.validate row definition = .ok layout ∧
      (RowView.value { raw := row, definition, layout } ⟨7, 0⟩ 0 .windows1252).map
        (Option.map DecodedValue.kind) = .ok (some (.long 70000)) := by
  obtain ⟨definition, hdefinition, hencoded⟩ := exists_ok_and
    (x := decodeDefinition droppedTextDefinition 6 ⟨⟨7, 0⟩, ⟨7, 1⟩⟩ 9)
    (p := fun definition =>
      (encodeRow (definition.columns.map ColumnDefinition.rowLayout) [.long 70000]
        pageBytes).toOption.isSome = true ∧
      (definition.columns.map fun column => column.physicalType) = [.long]) (by decide +kernel)
  obtain ⟨hencoded, htypes⟩ := of_decide_eq_true hencoded
  obtain ⟨row, hrow⟩ := exists_ok hencoded
  obtain ⟨column, hcolumns, htype⟩ := List.map_eq_singleton_iff.mp htypes
  obtain ⟨layout, hvalid, hvalues⟩ := value_encodeRow (decodeDefinition_storesRows hdefinition)
    (laysOut_rowLayout definition.columns) hrow
  refine ⟨definition, row, layout, hvalid, ?_⟩
  rw [hvalues 0 column (.long 70000) (by rw [hcolumns]; rfl) rfl]
  rfl

end Jet3
