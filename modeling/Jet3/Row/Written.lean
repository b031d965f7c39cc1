import Jet3.Library.Fields
import Jet3.Row.Shape

/-!
# Written rows

The parts of a row as the writer lays them out: the fixed area with the column count, the variable
fields in the order of their slots, and the null bitmap.

* `fixedArea_field` reads a fixed field back, `storedFields_slot` finds a variable one;
* `length_storedFields` is the length of all variable fields;
* `test_nullMap` says which presence bits are set.
-/

namespace Jet3

open Outcome Fields

namespace RowField

variable {field : RowField}

/-- Whether the null map has the bit of the field. -/
def present (field : RowField) : Bool :=
  field.value.present field.column.physicalType

/-- The bytes a field writes into the fixed area. -/
def fixedWrite (field : RowField) : Option (ℕ × List UInt8) :=
  match field.column.storage with
  | .fixed offset =>
    if field.present ∧ field.column.physicalType ≠ .boolean then
      some (1 + offset, field.value.scalarBytes)
    else none
  | .variable _ => none

/-- The value a field assigns to its slot. -/
def assignment (field : RowField) : Option (ℕ × RowValue) :=
  field.slot.map fun index => (index, field.value)

/-- A value with the type of its column has the width of the type. -/
theorem length_of_fits {value : RowValue} {physicalType : ColumnPhysicalType} {size : ℕ}
    (hsize : physicalType.validSize size = true) (hfits : value.fits physicalType = true)
    (hvalue : value ≠ .null) : value.scalarBytes.length = size := by
  cases value <;> simp only [RowValue.fits, decide_eq_true_eq, reduceCtorEq] at hfits <;>
    first
    | exact absurd rfl hvalue
    | (subst hfits
       simpa [RowValue.scalarBytes, ColumnPhysicalType.validSize, guidBytes, eq_comm] using hsize)

/-- A present fixed field has as many bytes as its column. -/
theorem Admits.length_scalarBytes (h : field.Admits) {offset : ℕ}
    (hstorage : field.column.storage = .fixed offset) (htype : field.column.physicalType ≠ .boolean)
    (hpresent : field.present = true) : field.value.scalarBytes.length = field.column.size := by
  obtain ⟨ordinal, width, hwidth⟩ := h.width
  have hfixed : field.column.storage.isFixed = true := by rw [hstorage]; rfl
  have hne : field.value ≠ .null := by
    intro hnull
    rw [present, hnull] at hpresent
    revert hpresent
    cases field.column.physicalType <;> decide
  have hsize := h.validSize
  unfold valueWidth at hwidth
  rw [hfixed] at hwidth
  dsimp only at hwidth
  split at hwidth
  next hboolean => exact absurd hboolean htype
  next htext =>
    -- a fixed text is exactly as long as its column
    split at hwidth
    next hnull => exact absurd hnull hne
    next bytes hvalue =>
      rw [hvalue]
      exact (checkWidth_ok_iff.mp hwidth).1.1 rfl
    next => cases hwidth
  next => simp at hwidth
  next => simp at hwidth
  next => simp at hwidth
  next =>
    rw [if_neg (by simp)] at hwidth
    split at hwidth
    next hfits => exact length_of_fits hsize hfits hne
    next => cases hwidth

end RowField

namespace Shaped

variable {fields : List RowField} {shape : RowShape}

/-- A fixed field ends inside the fixed area. -/
theorem fixedEnd_le (h : Shaped fields shape) {field : RowField} (hmem : field ∈ fields)
    {offset : ℕ}
    (hstorage : field.column.storage = .fixed offset)
    (htype : field.column.physicalType ≠ .boolean) :
    offset + field.column.size ≤ shape.fixedSize := by
  have hend : field.fixedEnd = some (offset + field.column.size) := by
    rw [RowField.fixedEnd, hstorage]
    exact if_pos htype
  rw [h.fixedSize_eq]
  exact (le_maximum (List.mem_filterMap.mpr ⟨field, hmem, hend⟩)).trans (Nat.le_max_left _ _)

/-- A slot is below the slot count. -/
theorem slot_lt (h : Shaped fields shape) {field : RowField} (hmem : field ∈ fields) {index : ℕ}
    (hslot : field.slot = some index) : index < shape.variableCount := by
  rw [h.variableCount_eq]
  exact le_maximum
    (List.mem_map_of_mem (f := (· + 1)) (List.mem_filterMap.mpr ⟨field, hmem, hslot⟩))

/-- Every column is counted. -/
theorem storageOrdinal_lt (h : Shaped fields shape) {field : RowField} (hmem : field ∈ fields) :
    field.storageOrdinal < shape.columnCount := by
  rw [h.columnCount_eq]
  exact le_maximum (List.mem_map_of_mem (f := fun field => RowField.storageOrdinal field + 1) hmem)

/-! ## The fixed area -/

/-- The column count and the fixed fields. -/
def fixedArea (fields : List RowField) (shape : RowShape) : List UInt8 :=
  overwriteAll (UInt8.ofNat shape.columnCount :: List.replicate shape.fixedSize 0)
    (fields.filterMap RowField.fixedWrite)

/-- A fixed value that is present is written at its offset. -/
theorem fixedWrite_eq {field : RowField} {write : ℕ × List UInt8}
    (h : field.fixedWrite = some write) :
    ∃ offset, field.column.storage = .fixed offset ∧ field.present = true ∧
      field.column.physicalType ≠ .boolean ∧ write = (1 + offset, field.value.scalarBytes) := by
  unfold RowField.fixedWrite at h
  split at h
  next offset hstorage =>
    split at h
    next hpresent => exact ⟨offset, hstorage, hpresent.1, hpresent.2, (Option.some.inj h).symm⟩
    next => cases h
  next => cases h

/-- Fixed values are written inside the fixed area. -/
theorem within (h : Shaped fields shape) :
    Within (UInt8.ofNat shape.columnCount :: List.replicate shape.fixedSize 0).length
      (fields.filterMap RowField.fixedWrite) := by
  intro write hwrite
  obtain ⟨field, hfield, hwrite⟩ := List.mem_filterMap.mp hwrite
  obtain ⟨offset, hstorage, hpresent, htype, rfl⟩ := fixedWrite_eq hwrite
  have hle := h.fixedEnd_le hfield hstorage htype
  have hlen := (h.admits field hfield).length_scalarBytes hstorage htype hpresent
  rw [List.length_cons, List.length_replicate]
  dsimp only
  omega

theorem length_fixedArea (h : Shaped fields shape) :
    (fixedArea fields shape).length = 1 + shape.fixedSize := by
  rw [fixedArea, length_overwriteAll h.within, List.length_cons, List.length_replicate,
    Nat.add_comm]

/-- The row begins with its column count. -/
theorem fixedArea_head (h : Shaped fields shape) :
    (fixedArea fields shape)[0]? = some (UInt8.ofNat shape.columnCount) := by
  have hrange := @take_drop_overwriteAll_of_outside _ _ 0 1 h.within (fun write hwrite => by
    obtain ⟨field, -, hwrite⟩ := List.mem_filterMap.mp hwrite
    obtain ⟨offset, -, -, -, rfl⟩ := fixedWrite_eq hwrite
    exact .inl (Nat.le_add_right 1 offset))
  have hget := congrArg (fun bytes : List UInt8 => bytes[0]?) hrange
  rw [fixedArea]
  simpa only [List.getElem?_take, List.drop_zero, Nat.zero_lt_one, if_true, List.getElem?_cons_zero]
    using hget

/-- A present fixed field is read back. -/
theorem fixedArea_field (h : Shaped fields shape) {field : RowField} (hmem : field ∈ fields)
    {offset : ℕ}
    (hstorage : field.column.storage = .fixed offset) (htype : field.column.physicalType ≠ .boolean)
    (hpresent : field.present = true) :
    ((fixedArea fields shape).drop (1 + offset)).take field.column.size =
      field.value.scalarBytes := by
  have hwrite : field.fixedWrite = some (1 + offset, field.value.scalarBytes) := by
    rw [RowField.fixedWrite, hstorage]
    exact if_pos ⟨hpresent, htype⟩
  have hapart : (fields.filterMap RowField.fixedWrite).Pairwise Apart := by
    rw [List.pairwise_filterMap]
    refine h.apart.imp_of_mem ?_
    intro a b ha hb hab write hwrite write' hwrite'
    obtain ⟨start, hstart, hpresent, htype, rfl⟩ := fixedWrite_eq hwrite
    obtain ⟨start', hstart', hpresent', htype', rfl⟩ := fixedWrite_eq hwrite'
    have hlen := (h.admits a ha).length_scalarBytes hstart htype hpresent
    have hlen' := (h.admits b hb).length_scalarBytes hstart' htype' hpresent'
    have hranges := hab start start' hstart hstart' htype htype'
    rw [Apart, hlen, hlen']
    omega
  have hread := take_drop_overwriteAll h.within hapart
    (List.mem_filterMap.mpr ⟨field, hmem, hwrite⟩)
  rwa [(h.admits field hmem).length_scalarBytes hstorage htype hpresent] at hread

/-! ## The variable fields -/

/-- The bytes of a slot. -/
def slotBytes (slot : Option RowValue) : List UInt8 :=
  (slot.getD .null).variableBytes

/-- The values by slot. -/
def slots (fields : List RowField) : List (Option RowValue) :=
  assignAll (List.replicate rowMaxColumnCount none) (fields.filterMap RowField.assignment)

/-- The variable fields in the order of their slots. -/
def storedFields (fields : List RowField) (count : ℕ) : List (List UInt8) :=
  ((slots fields).take count).map slotBytes

/-- A variable value is assigned to its slot. -/
theorem assignment_eq {field : RowField} {item : ℕ × RowValue} (h : field.assignment = some item) :
    field.slot = some item.1 ∧ item.2 = field.value := by
  obtain ⟨index, hslot, rfl⟩ := Option.map_eq_some_iff.mp h
  exact ⟨hslot, rfl⟩

/-- The slots of the variable values. -/
theorem map_assignment (fields : List RowField) :
    (fields.filterMap RowField.assignment).map Prod.fst = fields.filterMap RowField.slot := by
  rw [List.map_filterMap]
  refine List.filterMap_congr fun field _ => ?_
  rw [RowField.assignment, Option.map_map]
  exact Option.map_id'

@[simp]
theorem length_slots (fields : List RowField) : (slots fields).length = 255 := by
  rw [slots, length_assignAll, List.length_replicate]
  rfl

theorem length_storedFields (h : Shaped fields shape) :
    (storedFields fields shape.variableCount).length = shape.variableCount := by
  have hle := h.variableCount_le
  rw [storedFields, List.length_map, List.length_take, length_slots]
  omega

/-- A variable field is stored in its slot. -/
theorem storedFields_slot (h : Shaped fields shape) {field : RowField} (hmem : field ∈ fields)
    {index : ℕ}
    (hslot : field.slot = some index) :
    (storedFields fields shape.variableCount)[index]? = some field.value.variableBytes := by
  have hlt := h.slot_lt hmem hslot
  have hle := h.variableCount_le
  have hitem : (index, field.value) ∈ fields.filterMap RowField.assignment :=
    List.mem_filterMap.mpr ⟨field, hmem, by rw [RowField.assignment, hslot]; rfl⟩
  have hnodup : ((fields.filterMap RowField.assignment).map Prod.fst).Nodup := by
    rw [map_assignment]
    exact h.slots_nodup
  have hmax : rowMaxColumnCount = 255 := rfl
  have hget := @getElem?_assignAll _ (List.replicate rowMaxColumnCount none) _ _ hnodup hitem
    (by rw [List.length_replicate]; dsimp only; omega)
  rw [storedFields, List.getElem?_map, List.getElem?_take_of_lt hlt, slots, hget]
  rfl

/-- No slot is assigned at or beyond the slot count. -/
theorem slots_drop (h : Shaped fields shape) :
    ∀ slot ∈ (slots fields).drop shape.variableCount, slot = none := by
  intro slot hslot
  obtain ⟨i, hi⟩ := List.mem_iff_getElem?.mp hslot
  rw [List.getElem?_drop, slots, getElem?_assignAll_of_notMem ?_, List.getElem?_replicate] at hi
  · split at hi
    · exact (Option.some.inj hi).symm
    · cases hi
  · rw [map_assignment]
    intro hmem
    obtain ⟨field, hfield, hslot⟩ := List.mem_filterMap.mp hmem
    have := h.slot_lt hfield hslot
    omega

/-- The variable fields are as long as the values of the variable columns. -/
theorem length_flatten_storedFields (h : Shaped fields shape) :
    (storedFields fields shape.variableCount).flatten.length =
      (fields.map RowField.variableWidth).sum := by
  let weight : Option RowValue → ℕ := fun slot => (slotBytes slot).length
  have hdrop : (((slots fields).drop shape.variableCount).map weight).sum = 0 := by
    rw [List.sum_eq_zero_iff_forall_eq_nat]
    intro n hn
    obtain ⟨slot, hslot, rfl⟩ := List.mem_map.mp hn
    rw [h.slots_drop slot hslot]
    rfl
  have hsplit := congrArg (fun slots : List (Option RowValue) => (slots.map weight).sum)
    (List.take_append_drop shape.variableCount (slots fields))
  rw [List.map_append, List.sum_append, hdrop, Nat.add_zero] at hsplit
  have hmax : rowMaxColumnCount = 255 := rfl
  -- every slot holds at most one value, and slots without one are empty
  have hassign := @sum_assignAll _ (List.replicate rowMaxColumnCount none)
    (fields.filterMap RowField.assignment) weight rfl
    (by rw [map_assignment]; exact h.slots_nodup) (by
      intro item hitem
      obtain ⟨field, hfield, hitem⟩ := List.mem_filterMap.mp hitem
      have hlt := h.slot_lt hfield (assignment_eq hitem).1
      have hle := h.variableCount_le
      exact List.getElem?_replicate_of_lt (by omega))
  have hzero : ((List.replicate rowMaxColumnCount (none : Option RowValue)).map weight).sum =
    0 := by
    rw [List.map_replicate, List.sum_replicate]
    rfl
  have hitems : ((fields.filterMap RowField.assignment).map fun item => weight (some item.2)).sum =
      (fields.map RowField.variableWidth).sum := by
    clear h hdrop hsplit hassign
    induction fields with
    | nil => rfl
    | cons field fields ih =>
      rw [List.map_cons, List.sum_cons, ← ih, List.filterMap_cons, RowField.variableWidth,
        RowField.assignment, RowField.slot]
      cases field.column.storage with
      | fixed offset => exact (Nat.zero_add _).symm
      | _ => rfl
  rw [List.length_flatten, storedFields, List.map_map]
  show (((slots fields).take shape.variableCount).map weight).sum = _
  rw [hsplit, slots, hassign, hzero, hitems, Nat.zero_add]

/-! ## The null bitmap -/

/-- The null bitmap before it is cut to the column count. -/
def presenceMap (fields : List RowField) : List UInt8 :=
  ((fields.filter RowField.present).map RowField.storageOrdinal).foldl
    (fun bytes n => Bitmap.put bytes n true) (List.replicate nullMapMaxLen 0)

/-- The bit of a field says whether it is present. -/
theorem test_presenceMap (h : Shaped fields shape) {field : RowField} (hmem : field ∈ fields) :
    Bitmap.test (presenceMap fields) field.storageOrdinal = field.present := by
  have hlen : nullMapMaxLen = 32 := rfl
  rw [presenceMap, Bitmap.test_foldl_put ?_, Bitmap.test_replicate_zero]
  · -- no other field has the ordinal
    have hiff : field.storageOrdinal ∈ (fields.filter RowField.present).map
      RowField.storageOrdinal ↔
        field.present = true := by
      constructor
      · intro hordinal
        obtain ⟨other, hother, heq⟩ := List.mem_map.mp hordinal
        obtain ⟨hother, hpresent⟩ := List.mem_filter.mp hother
        have hsame := List.inj_on_of_nodup_map (h.ascending.imp fun hlt => Nat.ne_of_lt hlt) hother
          hmem heq
        rwa [← hsame]
      · intro hpresent
        exact List.mem_map_of_mem (List.mem_filter.mpr ⟨hmem, hpresent⟩)
    by_cases hpresent : field.present = true
    · rw [if_pos (hiff.mpr hpresent), hpresent]
    · rw [if_neg (hiff.not.mpr hpresent), Bool.eq_false_iff.mpr hpresent]
  · intro n hn
    obtain ⟨other, hother, rfl⟩ := List.mem_map.mp hn
    have hlt := h.storageOrdinal_lt (List.mem_filter.mp hother).1
    have hle := h.columnCount_le
    rw [List.length_replicate]
    omega

@[simp]
theorem length_presenceMap (fields : List RowField) : (presenceMap fields).length = 32 := by
  rw [presenceMap, Bitmap.length_foldl_put, List.length_replicate]
  rfl

end Shaped

end Jet3
