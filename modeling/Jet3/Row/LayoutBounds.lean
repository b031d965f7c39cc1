import Jet3.Definition.Sections
import Jet3.Row.Trailer

/-!
# Row decoding stays inside the row

Whatever bytes a row has, its validation ends with a layout or with an error. Where it ends with a
layout, every field of the row lies inside the stored bytes before the trailer.

* `validate_avoids_panic` says that the validation does not stop the program;
* `ValidRow` collects what an accepted row satisfies;
* `rowDecoding_inside` is about every field a decoded definition can ask for.
-/

namespace Jet3

open Outcome

namespace RowLayout

variable {row : List UInt8} {definition : TableDefinition} {layout : RowLayout}

/-! ## No panic -/

/-- The trailer is located without an access outside of the row. -/
theorem locateTrailer_avoids_panic {required : RowRequirement} {nullStart : ℕ}
    (hrow : 1 ≤ row.length) (hnull : nullStart ≤ row.length) :
    Avoids .panic (locateTrailer row definition required nullStart) := by
  have herror : ∀ {source : RowError}, RowFault.error source ≠ .panic := fun h => by cases h
  rw [locateTrailer]
  refine (Avoids.refuseIf herror).bind fun _ hpos => ?_
  rw [refuseIf_ok_iff, not_lt] at hpos
  dsimp only
  rw [indexByte_eq (show nullStart - 1 < row.length by omega)]
  refine (Avoids.ok _).bind fun raw _ => (Avoids.refuseIf herror).bind fun _ _ => ?_
  rw [subtract_eq hrow]
  refine (Avoids.ok _).bind fun last hlast => ?_
  cases hlast
  rw [subtract_eq (show (row.length - 1) / 256 ≤ row.length by omega)]
  refine (Avoids.ok _).bind fun withoutJumps _ => (Avoids.refuseIf herror).bind fun _ _ => ?_
  exact (Avoids.refuseIf herror).bind fun _ _ => Avoids.pure _

/-- The checks of a located trailer read nothing outside the row. -/
theorem validateVariable_avoids_panic {required : RowRequirement} {nullStart : ℕ}
    (hrow : 1 ≤ row.length) (hnull : nullStart ≤ row.length) :
    Avoids .panic (validateVariable row definition required nullStart) := by
  have herror : ∀ {source : RowError}, RowFault.error source ≠ .panic := fun h => by cases h
  rw [validateVariable]
  refine (locateTrailer_avoids_panic hrow hnull).bind fun layout hlayout => ?_
  have htrailer := (locateTrailer_ok_iff hrow hnull).mp hlayout
  -- the trailer is inside the row, and so is everything read from it
  have hlocated := htrailer.located hnull
  refine Avoids.bind ?_ fun _ _ => ?_
  · unfold checkFinalLow
    split
    · have := htrailer.position
      rw [indexByte_eq (show layout.offsetsStart < row.length by omega)]
      exact (Avoids.ok _).bind fun _ _ => Avoids.refuseIf herror
    · exact Avoids.ok ()
  rw [hlocated.boundary_eq (Nat.zero_le _)]
  refine (Avoids.ok _).bind fun actualFixed _ => (Avoids.refuseIf herror).bind fun _ _ => ?_
  refine Avoids.bind ?_ fun last _ => (Avoids.refuseIf herror).bind fun _ _ => ?_
  · refine Avoids.foldlM (fun _ _ => True) trivial fun done index rest start hsplit _ =>
      ⟨?_, fun _ _ =>
      trivial⟩
    have hindex := (Lookup.range_split hsplit).2
    have hcount := hlocated.variableCount_le
    rw [checkRange, succByte_eq (by omega)]
    refine (Avoids.ok _).bind fun next hnext => ?_
    cases hnext
    rw [hlocated.boundary_eq hindex]
    exact (Avoids.ok _).bind fun _ _ => (Avoids.refuseIf herror).bind fun _ _ => Avoids.pure _
  rw [hlocated.jumpBytes_eq]
  refine (Avoids.ok _).bind fun jumps hjumps => ?_
  cases hjumps
  refine Avoids.bind (Avoids.forM ?_) fun _ _ => Avoids.pure _
  rintro ⟨jump, position⟩ hmem
  have hposition : position < layout.jumps := by
    rw [← hlocated.length_jumpList]
    exact (List.getElem?_eq_some_iff.mp (List.mem_zipIdx_iff_getElem?.mp hmem)).1
  obtain ⟨valid, hvalid, -⟩ := hlocated.jumpValid_ok (256 * (layout.jumps - position)) jump
  rw [checkJump, subtract_eq hposition.le]
  refine (Avoids.ok _).bind fun block hblock => ?_
  cases hblock
  rw [hvalid]
  exact (Avoids.ok _).bind fun _ _ => Avoids.refuseIf herror

/-- No row stops the program: a row that is refused is refused with an error. -/
theorem validate_avoids_panic (row : List UInt8) (definition : TableDefinition) :
    Avoids .panic (validate row definition) := by
  have herror : ∀ {source : RowError}, RowFault.error source ≠ .panic := fun h => by cases h
  rw [validate]
  refine (Avoids.refuseIf herror).bind fun _ _ => (Avoids.okOr herror).bind fun first hfirst => ?_
  refine (Avoids.refuseIf herror).bind fun _ _ => (Avoids.refuseIf herror).bind fun _ hlen => ?_
  rw [refuseIf_ok_iff, not_lt] at hlen
  refine (Avoids.refuseIf herror).bind fun _ _ => ?_
  rw [subtract_eq (show (first.toNat + 7) / 8 ≤ row.length by omega)]
  refine (Avoids.ok _).bind fun nullStart hnull => ?_
  cases hnull
  split
  · exact (Avoids.refuseIf herror).bind fun _ _ => Avoids.pure _
  · exact validateVariable_avoids_panic (by omega) (Nat.sub_le _ _)

/-! ## Accepted rows -/

/-- The length of a null bitmap. -/
def nullLen (columnCount : ℕ) : ℕ :=
  (columnCount + 7) / 8

/-- What an accepted row satisfies. -/
structure ValidRow (row : List UInt8) (definition : TableDefinition) (layout : RowLayout) :
    Prop where
  columnCount_eq : row[0]?.map UInt8.toNat = some layout.columnCount
  expected_lt : definition.storageColumnCount < 256
  columnCount_le : layout.columnCount ≤ definition.storageColumnCount
  nullStart_eq : layout.nullStart + nullLen layout.columnCount = row.length
  nullStart_pos : 1 ≤ layout.nullStart
  length_le : row.length ≤
    maximumLength (rowRequirement definition layout.columnCount).variableLimit
  shape : if (rowRequirement definition layout.columnCount).minimumVariables = 0 then
      validateFixedOnly (rowRequirement definition layout.columnCount) layout.nullStart = .ok layout
    else
      VariableRow row definition (rowRequirement definition layout.columnCount) layout.nullStart
        layout

/-- What an accepted row is. -/
theorem validate_ok_iff :
    validate row definition = .ok layout ↔ ValidRow row definition layout := by
  have hfixed : ∀ {required : RowRequirement} {nullStart : ℕ},
      validateFixedOnly required nullStart = .ok layout →
      layout.columnCount = required.columnCount ∧ layout.nullStart = nullStart := by
    intro required nullStart h
    simp only [validateFixedOnly, bind_ok_iff, exists_unit, pure_ok_iff] at h
    obtain ⟨-, rfl⟩ := h
    exact ⟨rfl, rfl⟩
  constructor
  · intro h
    simp only [validate, bind_ok_iff, exists_unit, refuseIf_ok_iff, okOr_ok_iff, not_lt, not_le,
      gt_iff_lt, subtract_ok_iff] at h
    obtain ⟨hexpected, first, hfirst, hcount, hlen, hmax, nullStart, ⟨hnull, rfl⟩, hshape⟩ := h
    have hrow : 1 ≤ row.length := by omega
    -- a row without variable columns has no trailer
    by_cases hzero : (rowRequirement definition first.toNat).minimumVariables = 0
    · rw [if_pos hzero] at hshape
      obtain ⟨hcolumns, hstart⟩ := hfixed hshape
      have hcolumns' : layout.columnCount = first.toNat := hcolumns
      refine ⟨by rw [hfirst, hcolumns']; rfl, hexpected, by rw [hcolumns']; exact hcount, ?_, ?_,
        ?_, ?_⟩
      · rw [hstart, hcolumns', nullLen]
        omega
      · rw [hstart]
        omega
      · rw [hcolumns']
        exact hmax
      · rw [hcolumns', hstart, if_pos hzero]
        exact hshape
    · rw [if_neg hzero] at hshape
      have hvariable := (validateVariable_ok_iff hrow (Nat.sub_le _ _)).mp hshape
      have hcolumns' : layout.columnCount = first.toNat := hvariable.trailer.columnCount_eq
      have hstart := hvariable.trailer.nullStart_eq
      refine ⟨by rw [hfirst, hcolumns']; rfl, hexpected, by rw [hcolumns']; exact hcount, ?_, ?_,
        ?_, ?_⟩
      · rw [hstart, hcolumns', nullLen]
        omega
      · rw [hstart]
        omega
      · rw [hcolumns']
        exact hmax
      · rw [hcolumns', hstart, if_neg hzero]
        exact hvariable
  · rintro ⟨hfirst, hexpected, hcount, hnull, hpos, hmax, hshape⟩
    obtain ⟨first, hget, hcolumns⟩ := Option.map_eq_some_iff.mp hfirst
    rw [nullLen] at hnull
    have hstart : row.length - (first.toNat + 7) / 8 = layout.nullStart := by
      rw [hcolumns]
      omega
    simp only [validate, bind_ok_iff, exists_unit, refuseIf_ok_iff, okOr_ok_iff, not_lt, not_le,
      gt_iff_lt, subtract_ok_iff]
    refine ⟨hexpected, first, hget, hcolumns ▸ hcount, by rw [hcolumns]; omega, hcolumns ▸ hmax, _,
      ⟨by rw [hcolumns]; omega, rfl⟩, ?_⟩
    rw [hstart, hcolumns]
    split at hshape
    next hzero => rw [if_pos hzero]; exact hshape
    next hzero =>
      rw [if_neg hzero]
      exact (validateVariable_ok_iff (by omega) (by omega)).mpr hshape

end RowLayout

/-! ## Decoded definitions -/

/-- A variable column has a counter below the count of columns. -/
theorem decodeStorage_variable {context : ColumnContext} {scan scan' : ColumnScan}
    {fields : RecordFields} {index : ℕ}
    (h : decodeStorage context scan fields = .ok (.variable index, scan')) :
    index < context.variableCount := by
  unfold decodeStorage at h
  dsimp only at h
  split at h
  · simp only [decodeVariable, bind_ok_iff, exists_unit, refuseIf_ok_iff, pure_ok_iff,
      Prod.mk.injEq, ColumnStorageClass.variable.injEq, not_or, not_lt, ge_iff_le, not_le] at h
    obtain ⟨-, ⟨-, hlt⟩, rfl, -⟩ := h
    exact hlt
  split at h
  · simp only [decodeFixed, bind_ok_iff, exists_unit, refuseIf_ok_iff] at h
    obtain ⟨-, -, h⟩ := h
    split at h <;> simp at h
  · cases h

/-- The slot of a decoded column is below the slot count of its definition. -/
theorem decodeColumns_slots {context : ColumnContext} {total : ℕ} {columns : List ColumnDefinition}
    {rest rest' : List UInt8} (h : decodeColumns context total rest = .ok (columns, rest')) :
    ∀ column ∈ columns, ∀ index, column.storage = .variable index → index <
      context.variableCount := by
  simp only [decodeColumns, bind_ok_iff, exists_unit, Prod.exists] at h
  obtain ⟨scan, rest₁, hrecords, -, hnames⟩ := h
  have hscan : ∀ raw ∈ scan.columns, ∀ index, raw.storage = .variable index →
      index < context.variableCount := by
    refine foldlM_ok_induction (fun _ state => ∀ raw ∈ state.1.columns, ∀ index,
      raw.storage = .variable index → index < context.variableCount) (by simp) ?_ hrecords
    rintro _ ordinal _ state state' - hstate hstep
    simp only [decodeNextRecord, bind_ok_iff, pure_ok_iff, Prod.exists] at hstep
    obtain ⟨record, rest₂, -, scan', hrecord, rfl⟩ := hstep
    simp only [decodeRecord, bind_ok_iff, pure_ok_iff, Prod.exists] at hrecord
    obtain ⟨_, -, _, -, _, -, _, -, _, -, _, -, storage, _, hstorage, rfl⟩ := hrecord
    intro raw hraw index hslot
    rcases List.mem_append.mp hraw with hold | hnew
    · exact hstate raw hold index hslot
    · rw [List.mem_singleton.mp hnew] at hslot
      dsimp only at hslot
      rw [hslot] at hstorage
      exact decodeStorage_variable hstorage
  obtain ⟨hraws, -, -⟩ := decodeColumnNames_bytes hnames
  intro column hcolumn
  exact hscan column.toRawColumn (hraws ▸ List.mem_map_of_mem hcolumn)

/-- The columns of a decoded definition have slots that a row can store. -/
theorem decodeDefinition_slotsFit {bytes : List UInt8} {root : PageNumber}
    {maps : TableMapLocations}
    {pageCount : ℕ} {definition : TableDefinition}
    (h : decodeDefinition bytes root maps pageCount = .ok definition) : definition.SlotsFit := by
  simp only [decodeDefinition, bind_ok_iff, mapError_ok_iff, pure_ok_iff, Prod.exists] at h
  obtain ⟨header, _, -, _, -, context, hcontext, _, _, -, columns, _, hcolumns, _, _, _, -, _, -, _,
    -, rfl⟩ := h
  simp only [decodeCounts, bind_ok_iff, exists_unit, refuseIf_ok_iff, pure_ok_iff, not_or, not_lt,
    gt_iff_lt] at hcontext
  obtain ⟨⟨-, hstorage⟩, hvariable, -, rfl⟩ := hcontext
  intro column hcolumn index hslot
  have hlt := decodeColumns_slots hcolumns column hcolumn index hslot
  dsimp only at hlt
  omega

/-! ## Fields -/

namespace RowView

/-- The stored bytes between two positions. -/
def bytesBetween (view : RowView) (start stop : ℕ) : List UInt8 :=
  (view.raw.drop start).take (stop - start)

/-- Every field a row gives lies where the row stores fields. -/
structure Inside (view : RowView) : Prop where
  offsets_le : view.layout.offsetsStart ≤ view.layout.nullStart
  null_le : view.layout.nullStart ≤ view.raw.length
  /-- The range of a present column, and the bytes that reading it returns. -/
  present : ∀ ordinal column, view.definition.columns[ordinal]? = some column →
    column.physicalType ≠ .boolean → view.layout.present view.raw column.storageOrdinal = true →
    ∃ start stop, view.fieldRange column = .ok (some (start, stop)) ∧
      1 ≤ start ∧ start ≤ stop ∧ stop ≤ view.layout.offsetsStart ∧
      view.field ordinal = .ok (some (.bytes (view.bytesBetween start stop)))
  absent : ∀ ordinal column, view.definition.columns[ordinal]? = some column →
    column.physicalType ≠ .boolean → view.layout.present view.raw column.storageOrdinal = false →
    view.field ordinal = .ok (some .null)
  boolean : ∀ ordinal column, view.definition.columns[ordinal]? = some column →
    column.physicalType = .boolean → view.field ordinal = .ok (some (.bytes []))
  unknown : ∀ ordinal, view.definition.columns[ordinal]? = none → view.field ordinal = .ok none
  fixed : ∀ column ∈ view.definition.columns, column.physicalType ≠ .boolean →
    view.layout.present view.raw column.storageOrdinal = true →
    ∀ offset, column.storage = .fixed offset →
    1 + offset + column.size ≤ view.layout.fixedBoundary
  /-- A slot of the row is read, behind the fixed fields and the slots before it. -/
  slot : ∀ index < 256, ∃ range, view.layout.variableRange view.raw index = .ok range ∧
    (range.isSome ↔ index < view.layout.variableCount) ∧
    ∀ bounds ∈ range, view.layout.fixedBoundary ≤ bounds.1 ∧ bounds.1 ≤ bounds.2 ∧
      bounds.2 ≤ view.layout.offsetsStart
  disjoint : ∀ index index', index < index' → ∀ bounds bounds',
    view.layout.variableRange view.raw index = .ok (some bounds) →
    view.layout.variableRange view.raw index' = .ok (some bounds') → bounds.2 ≤ bounds'.1

end RowView

namespace RowLayout.ValidRow

variable {row : List UInt8} {definition : TableDefinition} {layout : RowLayout}

/-- A row has variable slots only where it was validated as one that has. -/
theorem variableRow (h : ValidRow row definition layout) (hcount : 0 < layout.variableCount) :
    VariableRow row definition (rowRequirement definition layout.columnCount) layout.nullStart
      layout := by
  have hshape := h.shape
  split at hshape
  next =>
    simp only [validateFixedOnly, bind_ok_iff, exists_unit, pure_ok_iff] at hshape
    obtain ⟨-, heq⟩ := hshape
    rw [← heq] at hcount
    exact absurd hcount (Nat.lt_irrefl 0)
  next => exact hshape

/-- The fixed fields lie before the variable ones, and these before the trailer. -/
theorem bounds (h : ValidRow row definition layout) :
    layout.fixedBoundary = (rowRequirement definition layout.columnCount).fixedBoundary ∧
      layout.fixedBoundary ≤ layout.offsetsStart ∧ layout.offsetsStart ≤ layout.nullStart ∧
      (rowRequirement definition layout.columnCount).minimumVariables ≤ layout.variableCount := by
  have hshape := h.shape
  split at hshape
  next hzero =>
    simp only [validateFixedOnly, bind_ok_iff, exists_unit, pure_ok_iff, refuseIf_ok_iff, not_or,
      not_lt] at hshape
    obtain ⟨⟨hle, -⟩, heq⟩ := hshape
    have hfixed := congrArg RowLayout.fixedBoundary heq
    have hoffsets := congrArg RowLayout.offsetsStart heq
    dsimp only at hfixed hoffsets
    exact ⟨hfixed.symm, by omega, by omega, by omega⟩
  next =>
    have htrailer := hshape.trailer
    have hposition := htrailer.position
    refine ⟨htrailer.fixedBoundary_eq, ?_, by omega, htrailer.minimum_le⟩
    rw [htrailer.fixedBoundary_eq, ← hshape.last]
    exact hshape.fixed_le.trans (boundaryAt_le_of_mono hshape.mono (Nat.zero_le _) le_rfl)

/-- A slot of an accepted row lies between its boundaries. -/
theorem range_eq (h : ValidRow row definition layout) {index : ℕ}
    (hindex : index < layout.variableCount) :
    layout.variableRange row index =
        .ok (some (layout.boundaryAt row index, layout.boundaryAt row (index + 1))) ∧
      layout.fixedBoundary ≤ layout.boundaryAt row index ∧
      layout.boundaryAt row index ≤ layout.boundaryAt row (index + 1) ∧
      layout.boundaryAt row (index + 1) ≤ layout.offsetsStart := by
  have hrow := h.variableRow (by omega)
  have hlocated := hrow.trailer.located (by have := h.nullStart_eq; omega)
  have hcount := hlocated.variableCount_le
  refine ⟨?_, ?_, hrow.mono index hindex, ?_⟩
  · rw [variableRange, if_pos ⟨by omega, hindex⟩, hlocated.boundary_eq hindex.le,
      succByte_eq (by omega)]
    simp only [bind, Except.bind, hlocated.boundary_eq hindex]
    rfl
  · rw [hrow.trailer.fixedBoundary_eq]
    exact hrow.fixed_le.trans (boundaryAt_le_of_mono hrow.mono (Nat.zero_le _) hindex.le)
  · rw [← hrow.last]
    exact boundaryAt_le_of_mono hrow.mono hindex le_rfl

/-- A column that is too new for the row has no bytes. -/
theorem range_none {index : ℕ} (hindex : ¬index < layout.variableCount) :
    layout.variableRange row index = .ok none :=
  if_neg fun hand => hindex hand.2

/-- The range of a stored column lies before the trailer. -/
theorem fieldRange_eq (h : ValidRow row definition layout) (hfit : definition.SlotsFit)
    {column : ColumnDefinition} (hmem : column ∈ definition.columns)
    (htype : column.physicalType ≠ .boolean)
    (hstored : column.storageOrdinal < layout.columnCount) :
    ∃ start stop, RowView.fieldRange ⟨row, definition, layout⟩ column = .ok (some (start, stop)) ∧
      1 ≤ start ∧ start ≤ stop ∧ stop ≤ layout.offsetsStart := by
  obtain ⟨hfixed, hle, -, hminimum⟩ := h.bounds
  unfold RowView.fieldRange
  rcases hstorage : column.storage with offset | index
  · have hend := fixedEnd_le hmem hstored hstorage htype
    exact ⟨1 + offset, 1 + offset + column.size, rfl, by omega, by omega, by omega⟩
  · have hindex := (lt_minimumVariables hfit hmem hstored hstorage).trans_le hminimum
    obtain ⟨hrange, hfirst, hmono, hlast⟩ := h.range_eq hindex
    refine ⟨_, _, hrange, ?_, hmono, hlast⟩
    have : 1 ≤ layout.fixedBoundary := by
      rw [hfixed]
      exact Nat.le_add_right 1 _
    omega

/-- What an accepted row gives lies inside it. -/
theorem inside (h : ValidRow row definition layout) (hfit : definition.SlotsFit) :
    RowView.Inside ⟨row, definition, layout⟩ := by
  obtain ⟨hfixed, hle, hoffsets, hminimum⟩ := h.bounds
  have hnull : layout.nullStart ≤ row.length := by
    have := h.nullStart_eq
    omega
  -- a value that is present is of a column the row has
  have hstored : ∀ column : ColumnDefinition, layout.present row column.storageOrdinal = true →
      column.storageOrdinal < layout.columnCount := by
    intro column hpresent
    simp only [present, decide_eq_true_eq] at hpresent
    exact hpresent.1
  constructor
  case offsets_le => exact hoffsets
  case null_le => exact hnull
  case present =>
    intro ordinal column hcolumn htype hpresent
    obtain ⟨start, stop, hrange, hpos, hmono, hstop⟩ := h.fieldRange_eq hfit
      (List.mem_of_getElem? hcolumn) htype (hstored column hpresent)
    refine ⟨start, stop, hrange, hpos, hmono, hstop, ?_⟩
    rw [RowView.field, hcolumn]
    dsimp only
    rw [if_neg htype, if_pos hpresent, hrange]
    simp only [bind, Except.bind]
    rw [sliceBytes_eq hmono (by omega)]
    rfl
  case absent =>
    intro ordinal column hcolumn htype hpresent
    rw [RowView.field, hcolumn]
    dsimp only
    rw [if_neg htype, hpresent]
    rfl
  case boolean =>
    intro ordinal column hcolumn htype
    rw [RowView.field, hcolumn]
    dsimp only
    rw [if_pos htype, sliceBytes_eq le_rfl (by omega), Nat.sub_self, List.take_zero]
    rfl
  case unknown =>
    intro ordinal hcolumn
    rw [RowView.field, hcolumn]
  case fixed =>
    intro column hcolumn htype hpresent offset hstorage
    have hend := fixedEnd_le hcolumn (hstored column hpresent) hstorage htype
    show 1 + offset + column.size ≤ layout.fixedBoundary
    rw [hfixed]
    exact hend
  case slot =>
    intro index _
    by_cases hindex : index < layout.variableCount
    · obtain ⟨hrange, hbounds⟩ := h.range_eq hindex
      refine ⟨_, hrange, ⟨fun _ => hindex, fun _ => rfl⟩, fun bounds hmem => ?_⟩
      rw [← Option.some.inj hmem]
      exact hbounds
    · refine ⟨none, range_none hindex,
        ⟨fun hsome => by simp at hsome, fun hlt => absurd hlt hindex⟩,
        fun bounds hmem => by simp at hmem⟩
  case disjoint =>
    intro index index' hlt bounds bounds' hrange hrange'
    have hcount : ∀ {other : ℕ} {range : ℕ × ℕ},
        layout.variableRange row other = .ok (some range) → other < layout.variableCount := by
      intro other range hother
      by_contra hge
      rw [range_none hge] at hother
      cases hother
    have hindex' := hcount hrange'
    obtain ⟨heq, -⟩ := h.range_eq (hcount hrange)
    obtain ⟨heq', -⟩ := h.range_eq hindex'
    have hbounds := Option.some.inj (Except.ok.inj (heq.symm.trans hrange))
    have hbounds' := Option.some.inj (Except.ok.inj (heq'.symm.trans hrange'))
    rw [← hbounds, ← hbounds']
    exact boundaryAt_le_of_mono (h.variableRow (by omega)).mono hlt hindex'.le

end RowLayout.ValidRow

/-- Whatever a row holds, decoding it under a decoded definition ends with an error or with a row
all of whose fields lie inside it. -/
theorem rowDecoding_inside {bytes : List UInt8} {root : PageNumber} {maps : TableMapLocations}
    {pageCount : ℕ} {definition : TableDefinition}
    (hdefinition : decodeDefinition bytes root maps pageCount = .ok definition) (row : List UInt8) :
    (∃ source, RowLayout.validate row definition = .error (.error source)) ∨
      ∃ layout, RowLayout.validate row definition = .ok layout ∧
        RowView.Inside ⟨row, definition, layout⟩ := by
  rcases hvalidate : RowLayout.validate row definition with fault | layout
  · cases fault with
    | panic => exact absurd hvalidate (RowLayout.validate_avoids_panic row definition)
    | error source => exact Or.inl ⟨source, rfl⟩
  · exact Or.inr ⟨layout, rfl,
      (RowLayout.validate_ok_iff.mp hvalidate).inside (decodeDefinition_slotsFit hdefinition)⟩

/-- The definition of a table with a Long column and a Text column of twenty bytes. -/
def textDefinition : List UInt8 :=
  List.replicate 20 0 ++ [0x4e, 2, 0, 1, 0, 2, 0, 0, 0, 0, 0, 0, 0] ++ List.replicate 10 0 ++
    [4, 0, 0, 0, 0, 0, 0, 1, 0, 0x09, 0x04, 0xe4, 0x04, 3, 0, 0, 4, 0] ++
    [10, 1, 0, 0, 0, 1, 0, 1, 0, 0x09, 0x04, 0xe4, 0x04, 2, 0, 0, 20, 0] ++
    [2, 0x49, 0x64] ++ [1, 0x54] ++ terminator

/-- A row of this table: one, and two characters. -/
def textRow : List UInt8 :=
  [2, 1, 0, 0, 0, 0x48, 0x69, 7, 5, 1, 3]

/-- The layout of a row with a short text. -/
def textLayout : RowLayout :=
  { fixedBoundary := 5, offsetsStart := 7, nullStart := 10, columnCount := 2, variableCount := 1
    jumps := 0 }

/-- The row of a short text is decoded. -/
theorem rowDecoding_inside_text :
    ∃ definition, decodeDefinition textDefinition 6 ⟨⟨7, 0⟩, ⟨7, 1⟩⟩ 9 = .ok definition ∧
      RowLayout.validate textRow definition = .ok textLayout ∧
      RowView.Inside ⟨textRow, definition, textLayout⟩ := by
  obtain ⟨definition, hdefinition, hrow⟩ := exists_ok_and
    (x := decodeDefinition textDefinition 6 ⟨⟨7, 0⟩, ⟨7, 1⟩⟩ 9)
    (p := fun definition => RowLayout.validate textRow definition = .ok textLayout)
    (by decide +kernel)
  have hlayout := of_decide_eq_true hrow
  rcases rowDecoding_inside hdefinition textRow with ⟨source, herror⟩ | ⟨layout, hok, hinside⟩
  · rw [hlayout] at herror
    cases herror
  · rw [hlayout] at hok
    cases hok
    exact ⟨definition, hdefinition, hlayout, hinside⟩

end Jet3
