import Jet3.Row.Trailer
import Jet3.Row.Writer

/-!
# Shapes of rows to write

What the checks of the row writer establish for the columns and values of a row: the storage
ordinals ascend, the fixed ranges and the variable slots are apart, every value suits its column,
and the shape counts what the columns need.

* `Scanned` is the invariant of the loop over the columns;
* `Shaped` is what a shape says of the fields it was computed from.
-/

namespace Jet3

open Outcome

/-! ## Maxima -/

theorem maximum_append (a b : List ℕ) : maximum (a ++ b) = max (maximum a) (maximum b) := by
  induction a with
  | nil => exact (Nat.zero_max _).symm
  | cons first a ih =>
    rw [List.cons_append, maximum, List.foldr_cons, ← maximum, ih, ← Nat.max_assoc]
    rfl

@[simp]
theorem maximum_singleton (n : ℕ) : maximum [n] = n :=
  Nat.max_zero n

/-- Different numbers below their count are all of them. -/
theorem maximum_succ_of_nodup {numbers : List ℕ} (hnodup : numbers.Nodup)
    (hlt : ∀ n ∈ numbers, n < numbers.length) : maximum (numbers.map (· + 1)) = numbers.length := by
  refine Nat.le_antisymm (maximum_le fun m hm => ?_) ?_
  · obtain ⟨n, hn, rfl⟩ := List.mem_map.mp hm
    exact hlt n hn
  · by_contra hsmall
    -- all numbers would be below a smaller bound
    have hsub : numbers ⊆ List.range (maximum (numbers.map (· + 1))) := fun n hn =>
      List.mem_range.mpr (le_maximum (List.mem_map_of_mem (f := (· + 1)) hn))
    have hle := (hnodup.subperm hsub).length_le
    rw [List.length_range] at hle
    omega

/-! ## Fields -/

/-- A column of a row, its value, and its position. -/
abbrev RowField : Type := (RowColumnLayout × RowValue) × ℕ

namespace RowField

/-- The layout of the field. -/
def column (field : RowField) : RowColumnLayout := field.1.1

/-- The value of the field. -/
def value (field : RowField) : RowValue := field.1.2

/-- The bit of the null bitmap that belongs to the field. -/
def storageOrdinal (field : RowField) : ℕ :=
  field.column.storageOrdinal.getD field.2

/-- Where the bytes of a fixed field end in the fixed area. A Boolean has none. -/
def fixedEnd (field : RowField) : Option ℕ :=
  match field.column.storage with
  | .fixed offset =>
    if field.column.physicalType ≠ .boolean then some (offset + field.column.size) else none
  | .variable _ => none

/-- The slot of a variable field. -/
def slot (field : RowField) : Option ℕ :=
  match field.column.storage with
  | .fixed _ => none
  | .variable index => some index

/-- The bytes a field adds to the variable fields. -/
def variableWidth (field : RowField) : ℕ :=
  match field.column.storage with
  | .fixed _ => 0
  | .variable _ => field.value.variableBytes.length

/-- Two fields none of whose fixed bytes are shared. -/
def FixedApart (a b : RowField) : Prop :=
  ∀ offset offset', a.column.storage = .fixed offset → b.column.storage = .fixed offset' →
    a.column.physicalType ≠ .boolean → b.column.physicalType ≠ .boolean →
    offset + a.column.size ≤ offset' ∨ offset' + b.column.size ≤ offset

/-- A value its column can store. -/
structure Admits (field : RowField) : Prop where
  validSize : field.column.physicalType.validSize field.column.size = true
  neverFixed : ∀ offset, field.column.storage = .fixed offset →
    field.column.physicalType.neverFixed = false
  isVariable : ∀ index, field.column.storage = .variable index →
    field.column.physicalType.isVariable = true
  width : ∃ ordinal width, valueWidth ordinal field.column field.value = .ok width

end RowField

/-! ## Widths -/

/-- A width is exact, or at most what the column allows. -/
@[simp]
theorem checkWidth_ok_iff {ordinal actual expected width : ℕ} {physicalType : ColumnPhysicalType}
    {exact : Bool} : checkWidth ordinal physicalType actual expected exact = .ok width ↔
      ((exact = true → actual = expected) ∧ (exact = false → actual ≤ expected)) ∧ width =
        actual := by
  simp only [checkWidth, bind_ok_iff, exists_unit, refuseIf_ok_iff, pure_ok_iff, not_or, not_and,
    ne_eq, not_not, Bool.not_eq_true, gt_iff_lt, not_lt]
  exact Iff.and Iff.rfl eq_comm

/-- The width of a variable value is the number of its bytes. -/
theorem valueWidth_variable {ordinal index width : ℕ} {column : RowColumnLayout} {value : RowValue}
    (hstorage : column.storage = .variable index)
    (h : valueWidth ordinal column value = .ok width) :
    width = value.variableBytes.length := by
  have hfixed : column.storage.isFixed = false := by rw [hstorage]; rfl
  unfold valueWidth at h
  rw [hfixed] at h
  dsimp only at h
  split at h
  · simp at h
  · split at h
    · exact (Except.ok.inj h).symm
    · exact (checkWidth_ok_iff.mp h).2
    · cases h
  · rw [if_neg Bool.false_ne_true] at h
    split at h
    · exact (Except.ok.inj h).symm
    · exact (checkWidth_ok_iff.mp h).2
    · cases h
  · rw [if_neg Bool.false_ne_true] at h
    split at h
    · exact (Except.ok.inj h).symm
    · split at h
      · cases h
      · exact (Except.ok.inj h).symm
    · cases h
  · rw [if_neg Bool.false_ne_true] at h
    split at h
    · exact (Except.ok.inj h).symm
    · split at h
      · cases h
      · exact (Except.ok.inj h).symm
    · cases h
  · simp at h

/-! ## The loop over the columns -/

/-- What the fields `done` come to. -/
structure Scanned (retained : Bool) (done : List RowField) (scan : ShapeScan) : Prop where
  columnCount_eq : scan.columnCount = maximum (done.map fun field => field.storageOrdinal + 1)
  columnCount_le : scan.columnCount ≤ 255
  ascending : (done.map RowField.storageOrdinal).Pairwise (· < ·)
  nextFixedOffset_eq : scan.nextFixedOffset = maximum (done.filterMap RowField.fixedEnd)
  variableCount_eq : scan.variableCount =
    if retained = true then maximum ((done.filterMap RowField.slot).map (· + 1))
    else (done.filterMap RowField.slot).length
  variableBytes_eq : scan.variableBytes = (done.map RowField.variableWidth).sum
  seenIndexes_eq : scan.seenIndexes = (done.filterMap RowField.slot).reverse
  slots_nodup : (done.filterMap RowField.slot).Nodup
  slots_lt : ∀ index ∈ done.filterMap RowField.slot, index < 255
  apart : done.Pairwise RowField.FixedApart
  admits : ∀ field ∈ done, field.Admits

theorem scanned_nil (retained : Bool) :
    Scanned retained [] { columnCount := 0, nextFixedOffset := 0, variableCount := 0
                          variableBytes := 0, seenIndexes := [] } :=
  { columnCount_eq := rfl
    columnCount_le := Nat.zero_le _
    ascending := .nil
    nextFixedOffset_eq := rfl
    variableCount_eq := by cases retained <;> rfl
    variableBytes_eq := rfl
    seenIndexes_eq := rfl
    slots_nodup := List.nodup_nil
    slots_lt := by simp
    apart := .nil
    admits := by simp }

/-- A column that is accepted suits its value. -/
theorem validateRowColumn_ok {field : RowField} {ordinal next stop : ℕ}
    (h : RowColumnLayout.validateColumnLayout ordinal field.column next = .ok stop) :
    field.column.physicalType.validSize field.column.size = true ∧
    (∀ offset, field.column.storage = .fixed offset →
      field.column.physicalType.neverFixed = false) ∧
    (∀ index, field.column.storage = .variable index →
      field.column.physicalType.isVariable = true) ∧
    stop = max next (maximum field.fixedEnd.toList) ∧
    (field.column.storageOrdinal = none → ∀ offset, field.column.storage = .fixed offset →
      field.column.physicalType ≠ .boolean → offset = next) := by
  simp only [RowColumnLayout.validateColumnLayout, bind_ok_iff, exists_unit, refuseIf_ok_iff,
    not_not] at h
  obtain ⟨hsize, h⟩ := h
  refine ⟨hsize, ?_⟩
  rcases hstorage : field.column.storage with offset | index
  · -- a fixed column
    rw [hstorage] at h
    dsimp only at h
    simp only [bind_ok_iff, exists_unit, refuseIf_ok_iff, Bool.not_eq_true] at h
    obtain ⟨hnever, hplace, h⟩ := h
    refine ⟨fun _ _ => hnever, fun _ hvariable => (by cases hvariable), ?_, ?_⟩
    · rw [RowField.fixedEnd, hstorage]
      dsimp only
      split at h
      next htype =>
        simp only [bind_ok_iff, exists_unit, refuseIf_ok_iff, pure_ok_iff] at h
        rw [if_pos htype, Option.toList_some, maximum_singleton]
        exact h.2.symm
      next htype =>
        rw [if_neg htype]
        rw [pure_ok_iff] at h
        rw [← h]
        exact (Nat.max_zero next).symm
    · intro hnone other hother htype
      cases hother
      by_contra hne
      exact hplace ⟨by rw [hnone]; rfl, hne, by simp [htype]⟩
  · -- a variable column
    rw [hstorage] at h
    simp only [bind_ok_iff, exists_unit, refuseIf_ok_iff, not_not, pure_ok_iff] at h
    refine ⟨fun _ hfixed => (by cases hfixed), fun _ _ => h.1, ?_, fun _ _ hfixed =>
      (by cases hfixed)⟩
    rw [RowField.fixedEnd, hstorage, ← h.2]
    exact (Nat.max_zero next).symm

/-- The fixed bytes of the next field meet none before it: a retained column is compared with each
of them, and any other one begins where the last of them ended. -/
theorem Scanned.fixedApart {retained : Bool} {done : List RowField} {scan : ShapeScan}
    {columns : List RowColumnLayout} {field : RowField} {stop : ℕ}
    (hscan : Scanned retained done scan)
    (hcolumns : ∀ other ∈ done, other.column ∈ columns.take field.2)
    (hoverlap : checkFixedOverlap columns field.2 field.column scan.nextFixedOffset = .ok ())
    (hlayout : RowColumnLayout.validateColumnLayout field.2 field.column scan.nextFixedOffset =
      .ok stop) :
    ∀ other ∈ done, other.FixedApart field := by
  intro other hother start offset hstart hoffset hother' hfield'
  cases hordinal : field.column.storageOrdinal with
  | some _ =>
    rw [checkFixedOverlap, hoffset] at hoverlap
    simp only [refuseIf_ok_iff, not_and, Bool.not_eq_true] at hoverlap
    have hmeets := List.any_eq_false.mp (hoverlap hfield' (by rw [hordinal]; rfl)) other.column
      (hcolumns other hother)
    rw [RowColumnLayout.meets, hstart] at hmeets
    simp only [fixedOverlap, hother', ne_eq, not_false_eq_true, true_and, Bool.decide_and,
      Bool.and_eq_true, decide_eq_true_eq, not_and, not_lt] at hmeets
    omega
  | none =>
    obtain ⟨-, -, -, -, hplace⟩ := validateRowColumn_ok hlayout
    have hend : other.fixedEnd = some (start + other.column.size) := by
      rw [RowField.fixedEnd, hstart]
      exact if_pos hother'
    have hle := le_maximum (List.mem_filterMap.mpr ⟨other, hother, hend⟩)
    rw [← hscan.nextFixedOffset_eq, ← hplace hordinal offset hoffset hfield'] at hle
    exact .inl hle

/-- One field. -/
theorem Scanned.step {retained : Bool} {done : List RowField} {scan next : ShapeScan}
    {columns : List RowColumnLayout} {field : RowField} (hscan : Scanned retained done scan)
    (hcolumns : ∀ other ∈ done, other.column ∈ columns.take field.2)
    (h : shapeStep columns retained scan field = .ok next) :
    Scanned retained (done ++ [field]) next := by
  obtain ⟨⟨column, value⟩, ordinal⟩ := field
  simp only [shapeStep, bind_ok_iff, exists_unit, refuseIf_ok_iff, not_or, not_le, not_lt] at h
  obtain ⟨⟨hlt, hge⟩, hoverlap, stop, hlayout, width, hwidth, h⟩ := h
  let field : RowField := ((column, value), ordinal)
  have hfield : column.storageOrdinal.getD ordinal = field.storageOrdinal := rfl
  have hmax : rowMaxColumnCount = 255 := rfl
  rw [hfield] at hlt hge h
  obtain ⟨hsize, hnever, hvariable, hstop, -⟩ := @validateRowColumn_ok field _ _ _ hlayout
  have hadmits : field.Admits := ⟨hsize, hnever, hvariable, ordinal, width, hwidth⟩
  have hcount : field.storageOrdinal + 1 =
      maximum ((done ++ [field]).map fun other => other.storageOrdinal + 1) := by
    rw [List.map_append, maximum_append, ← hscan.columnCount_eq, List.map_singleton,
      maximum_singleton]
    omega
  have hascending : ((done ++ [field]).map RowField.storageOrdinal).Pairwise (· < ·) := by
    rw [List.map_append, List.pairwise_append]
    refine ⟨hscan.ascending, List.pairwise_singleton _ _, ?_⟩
    intro a ha b hb
    obtain ⟨other, hother, rfl⟩ := List.mem_map.mp ha
    rw [List.map_singleton, List.mem_singleton] at hb
    have hle :=
      le_maximum (List.mem_map_of_mem (f := fun other => RowField.storageOrdinal other + 1) hother)
    rw [← hscan.columnCount_eq] at hle
    omega
  have hoffset : stop = maximum ((done ++ [field]).filterMap RowField.fixedEnd) := by
    rw [List.filterMap_append, maximum_append, ← hscan.nextFixedOffset_eq, hstop]
    rw [List.filterMap_cons, List.filterMap_nil]
    cases field.fixedEnd <;> rfl
  have hapart : (done ++ [field]).Pairwise RowField.FixedApart := by
    rw [List.pairwise_append]
    refine ⟨hscan.apart, List.pairwise_singleton _ _, fun other hother b hb => ?_⟩
    rw [List.mem_singleton.mp hb]
    exact @Scanned.fixedApart retained done scan columns field stop hscan hcolumns hoverlap hlayout
      other hother
  have hall : ∀ other ∈ done ++ [field], other.Admits := fun other hother =>
    (List.mem_append.mp hother).elim (hscan.admits other) fun hnew => by
      rwa [List.mem_singleton.mp hnew]
  rcases hstorage : column.storage with offset | index
  · -- a fixed field leaves the slots alone
    rw [hstorage, pure_ok_iff] at h
    subst h
    have hslot : field.slot = none := by rw [RowField.slot, RowField.column, hstorage]
    have hslots : (done ++ [field]).filterMap RowField.slot = done.filterMap RowField.slot := by
      rw [List.filterMap_append, List.filterMap_cons, hslot]
      exact List.append_nil _
    have hbytes : field.variableWidth = 0 := by
      rw [RowField.variableWidth, RowField.column, hstorage]
    exact
      { columnCount_eq := hcount
        columnCount_le := by show field.storageOrdinal + 1 ≤ 255; omega
        ascending := hascending
        nextFixedOffset_eq := hoffset
        variableCount_eq := by rw [hslots]; exact hscan.variableCount_eq
        variableBytes_eq := by
          rw [List.map_append, List.sum_append, List.map_singleton, List.sum_singleton, hbytes]
          exact hscan.variableBytes_eq
        seenIndexes_eq := by rw [hslots]; exact hscan.seenIndexes_eq
        slots_nodup := by rw [hslots]; exact hscan.slots_nodup
        slots_lt := by rw [hslots]; exact hscan.slots_lt
        apart := hapart
        admits := hall }
  · -- a variable field takes a fresh slot
    rw [hstorage] at h
    simp only [bind_ok_iff, exists_unit, refuseIf_ok_iff, not_or, not_le, pure_ok_iff] at h
    obtain ⟨⟨hindex, hfresh⟩, rfl⟩ := h
    have hslot : field.slot = some index := by rw [RowField.slot, RowField.column, hstorage]
    have hslots : (done ++ [field]).filterMap RowField.slot =
      done.filterMap RowField.slot ++ [index] := by
      rw [List.filterMap_append, List.filterMap_cons, hslot]
      rfl
    have hbytes : field.variableWidth = width := by
      rw [RowField.variableWidth, RowField.column, hstorage]
      exact (valueWidth_variable hstorage hwidth).symm
    rw [hscan.seenIndexes_eq, List.mem_reverse] at hfresh
    exact
      { columnCount_eq := hcount
        columnCount_le := by show field.storageOrdinal + 1 ≤ 255; omega
        ascending := hascending
        nextFixedOffset_eq := hoffset
        variableCount_eq := by
          rw [hslots, List.map_append, maximum_append, List.map_singleton, maximum_singleton,
            List.length_append, List.length_singleton]
          have hbefore := hscan.variableCount_eq
          cases retained with
          | true => exact congrArg (max · (index + 1)) hbefore
          | false => exact congrArg (· + 1) hbefore
        variableBytes_eq := by
          rw [List.map_append, List.sum_append, List.map_singleton, List.sum_singleton, hbytes]
          exact congrArg (· + width) hscan.variableBytes_eq
        seenIndexes_eq := by
          rw [hslots, List.reverse_append, List.reverse_singleton, ← hscan.seenIndexes_eq]
          rfl
        slots_nodup := by
          rw [hslots, List.nodup_append]
          refine ⟨hscan.slots_nodup, List.nodup_singleton _, fun a ha b hb heq => hfresh ?_⟩
          rw [List.mem_singleton.mp hb] at heq
          rwa [← heq]
        slots_lt := by
          rw [hslots]
          intro other hother
          rcases List.mem_append.mp hother with hold | hnew
          · exact hscan.slots_lt other hold
          · rw [List.mem_singleton.mp hnew]
            omega
        apart := hapart
        admits := hall }

/-! ## Shapes -/

/-- The fields of a row. -/
def rowFields (columns : List RowColumnLayout) (values : List RowValue) : List RowField :=
  (columns.zip values).zipIdx

/-- The length of a row without jump bytes. -/
def RowShape.withoutJumps (shape : RowShape) (fields : List RowField) : ℕ :=
  1 + shape.fixedSize + (fields.map RowField.variableWidth).sum + shape.nullLen +
    if shape.variableCount = 0 then 0 else shape.variableCount + 2

/-- What a shape says of the fields it was computed from. -/
structure Shaped (fields : List RowField) (shape : RowShape) : Prop where
  columnCount_eq : shape.columnCount = maximum (fields.map fun field => field.storageOrdinal + 1)
  columnCount_le : shape.columnCount ≤ 255
  ascending : (fields.map RowField.storageOrdinal).Pairwise (· < ·)
  fixedSize_eq : shape.fixedSize = max (maximum (fields.filterMap RowField.fixedEnd))
    (if shape.variableCount = 0 then 2 else 0)
  variableCount_eq : shape.variableCount = maximum ((fields.filterMap RowField.slot).map (· + 1))
  variableCount_le : shape.variableCount ≤ 255
  nullLen_eq : shape.nullLen = (shape.columnCount + 7) / 8
  jumps_eq : shape.jumps =
    if shape.variableCount = 0 then 0 else jumpCount (shape.withoutJumps fields)
  length_eq : shape.length = shape.withoutJumps fields + shape.jumps
  length_le : shape.length ≤ maximumLength shape.variableCount
  slots_nodup : (fields.filterMap RowField.slot).Nodup
  apart : fields.Pairwise RowField.FixedApart
  admits : ∀ field ∈ fields, field.Admits

/-- The shape of a row is that of its fields. -/
theorem rowShape_ok {columns : List RowColumnLayout} {values : List RowValue} {shape : RowShape}
    (h : rowShape columns values = .ok shape) :
    values.length = columns.length ∧ Shaped (rowFields columns values) shape := by
  simp only [rowShape, bind_ok_iff, exists_unit, refuseIf_ok_iff, not_not, not_lt, pure_ok_iff,
    gt_iff_lt] at h
  obtain ⟨-, hvalues, scan, hscan, hindexes, hlength, rfl⟩ := h
  refine ⟨hvalues, ?_⟩
  have hdone := foldlM_ok_induction (fun done scan =>
      Scanned (columns.all fun column => column.storageOrdinal.isSome) done scan)
    (scanned_nil _) (by
      rintro done field rest scan next hsplit hscan hstep
      refine hscan.step (fun other hother => ?_) hstep
      -- the fields before this one are those of the columns before it
      obtain ⟨i, hi⟩ := List.mem_iff_getElem?.mp hother
      have hlt := (List.getElem?_eq_some_iff.mp hi).1
      have hposition : field.2 = done.length := by
        have hat : (columns.zip values).zipIdx[done.length]? = some field := by
          rw [hsplit, List.getElem?_append_right le_rfl, Nat.sub_self]
          rfl
        rw [List.getElem?_zipIdx, Option.map_eq_some_iff] at hat
        obtain ⟨_, -, rfl⟩ := hat
        exact Nat.zero_add _
      have hat : (columns.zip values).zipIdx[i]? = some other := by
        rw [hsplit, List.getElem?_append_left hlt]
        exact hi
      rw [List.getElem?_zipIdx, Option.map_eq_some_iff] at hat
      obtain ⟨pair, hpair, rfl⟩ := hat
      obtain ⟨hcolumn, -⟩ := List.getElem?_zip_eq_some.mp hpair
      refine List.mem_iff_getElem?.mpr ⟨i, ?_⟩
      rw [hposition, List.getElem?_take_of_lt hlt]
      exact hcolumn) hscan
  have hbelow : ∀ index ∈ (rowFields columns values).filterMap RowField.slot,
      index < scan.variableCount := by
    intro index hindex
    obtain ⟨field, hfield, hslot⟩ := List.mem_filterMap.mp hindex
    have hat := List.mem_zipIdx_iff_getElem?.mp hfield
    obtain ⟨hcolumn, -⟩ := List.getElem?_zip_eq_some.mp hat
    have hcheck := forM_ok_iff.mp hindexes (field.column, field.2)
      (List.mem_zipIdx_iff_getElem?.mpr hcolumn)
    unfold RowField.slot at hslot
    unfold checkIndex at hcheck
    split at hslot
    next => cases hslot
    next slot hstorage =>
      cases hslot
      dsimp only at hcheck
      rw [hstorage] at hcheck
      simpa using hcheck
  have hcount : scan.variableCount =
      maximum (((rowFields columns values).filterMap RowField.slot).map (· + 1)) := by
    have heq := hdone.variableCount_eq
    split at heq
    · exact heq
    · -- the slots are the numbers below their count
      refine heq.trans (maximum_succ_of_nodup hdone.slots_nodup fun index hindex => ?_).symm
      rw [← heq]
      exact hbelow index hindex
  have hle : scan.variableCount ≤ 255 := by
    rw [hcount]
    refine maximum_le fun n hn => ?_
    obtain ⟨index, hindex, rfl⟩ := List.mem_map.mp hn
    exact hdone.slots_lt index hindex
  have hwithout : RowShape.withoutJumps
      { columnCount := scan.columnCount
        fixedSize := max scan.nextFixedOffset (if scan.variableCount = 0 then 2 else 0)
        variableCount := scan.variableCount, nullLen := (scan.columnCount + 7) / 8, jumps := 0
        length := 0 } (rowFields columns values) =
      (if scan.variableCount > 0 then
        1 + max scan.nextFixedOffset (if scan.variableCount = 0 then 2 else 0) +
          scan.variableBytes +
          (scan.columnCount + 7) / 8 + scan.variableCount + 2
      else 1 + max scan.nextFixedOffset (if scan.variableCount = 0 then 2 else 0) +
        scan.variableBytes + (scan.columnCount + 7) / 8) := by
    rw [RowShape.withoutJumps, hdone.variableBytes_eq]
    dsimp only [rowFields]
    split <;> split <;> omega
  exact
    { columnCount_eq := hdone.columnCount_eq
      columnCount_le := hdone.columnCount_le
      ascending := hdone.ascending
      fixedSize_eq := congrArg (max · (if scan.variableCount = 0 then 2 else 0))
        hdone.nextFixedOffset_eq
      variableCount_eq := hcount
      variableCount_le := hle
      nullLen_eq := rfl
      jumps_eq := by
        show (if scan.variableCount = 0 then 0 else jumpCount _) = _
        rw [← hwithout]
        rfl
      length_eq := by
        show _ + (if scan.variableCount = 0 then 0 else jumpCount _) = _
        rw [← hwithout]
        rfl
      length_le := hlength
      slots_nodup := hdone.slots_nodup
      apart := hdone.apart
      admits := hdone.admits }

end Jet3
