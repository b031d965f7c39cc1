import Mathlib.Data.List.Sort
import Jet3.Index.Entry
import Jet3.Library.ByteOrder
import Jet3.Library.Search
import Jet3.Write.Error

/-!
# Relationship keys

Relationship equality is equality of ordered scalar index encodings: a `Key` is the index entry of
the key columns, and a row whose key columns are all null has none.

* `missing_sort_eq_none_iff` and `contains_sort_iff` say what the searches in a sorted key list
  decide;
* `Key.encode_compatible` says that compatible column types encode a value to the same bytes.
-/

namespace Jet3

open Outcome
open scoped ByteOrder

/-- Two key columns may be related when their encodings agree. -/
def compatible : ScalarKeyType → ScalarKeyType → Bool
  | .text _ a, .text _ b => a = b
  | .binary _, .binary _ => true
  | parent, child => parent = child

/-- Compatible types agree on what is null. -/
theorem isNull_of_compatible {parent child : ScalarKeyType} (h : compatible parent child = true)
    (value : RowValue) : parent.isNull value = child.isNull value := by
  cases parent <;> cases child <;>
    simp [compatible] at h <;> simp [ScalarKeyType.isNull, ScalarKeyType.isBinary]

/-- Binary columns of different widths encode a value alike. -/
theorem binary_encode_eq {value component component' : List UInt8} {maximum maximum' : ℕ}
    {direction : IndexDirection} (h : Binary.encode value maximum direction = some component)
    (h' : Binary.encode value maximum' direction = some component') : component = component' := by
  unfold Binary.encode at h h'
  split at h <;> split at h' <;> simp_all

/-- So do text columns. -/
theorem localeText_encode_eq {value component component' : List UInt8} {maximum maximum' : UInt8}
    {direction : IndexDirection} {order : SortOrder}
    (h : LocaleText.encode value maximum direction order = some component)
    (h' : LocaleText.encode value maximum' direction order = some component') :
    component = component' := by
  unfold LocaleText.encode Text.encode at h h'
  split at h <;> split at h <;> split at h' <;> simp_all

/-- Compatible columns encode a value to the same component. -/
theorem encode_of_compatible {parent child : ScalarKeyType} (h : compatible parent child = true)
    {value : RowValue} {direction : IndexDirection} {component component' : List UInt8}
    (hparent : parent.encode value direction = some component)
    (hchild : child.encode value direction = some component') : component = component' := by
  have hsame : parent = child → component = component' := by
    rintro rfl
    exact Option.some.inj (hparent.symm.trans hchild)
  -- the kinds differ in their maximum length at most
  cases parent with
  | binary maximum =>
    cases child <;> simp only [compatible, decide_eq_true_eq, reduceCtorEq] at h
    cases value <;>
      simp [ScalarKeyType.encode, ScalarKeyType.plain] at hparent hchild
    · exact hparent ▸ hchild ▸ rfl
    · exact binary_encode_eq hparent hchild
  | text maximum order =>
    cases child <;> simp only [compatible, decide_eq_true_eq, reduceCtorEq] at h
    subst h
    cases value <;>
      simp [ScalarKeyType.encode, ScalarKeyType.plain] at hparent hchild
    · exact hparent ▸ hchild ▸ rfl
    · exact localeText_encode_eq hparent hchild
  | _ =>
    cases child <;> simp only [compatible, decide_eq_true_eq, reduceCtorEq] at h
    exact hsame rfl

/-- A relationship key that is not all null. -/
structure Key where
  entry : ScalarIndexEntry
  long : Option Int32
  deriving DecidableEq, Repr

namespace Key

/-- The key of the values of a row, or none where one of them is null. -/
def encode (kinds : List ScalarKeyType) (values : List RowValue) :
    Except WriteError (Option Key) := do
  refuseIf (kinds.length ≠ values.length ∨ ¬(1 ≤ kinds.length ∧ kinds.length ≤ maxFields))
    (.mismatch "relationship key field count")
  let fields := kinds.zipIdx.map fun (kind, ordinal) =>
    { column := ordinal, direction := .ascending, kind : ScalarIndexField }
  let entry ←
    (ScalarIndexEntry.encode fields values .include { page := 0, slot := 0 }).mapError fun
      | .encoding error => .resource error
      | _ => .mismatch "relationship key value type"
  let entry ← okOr entry (.mismatch "relationship key omitted")
  if (kinds.zip values).all fun (kind, value) => kind.isNull value then return none
  else
    return some
      { entry
        long := match values with
          | [.long value] => some value
          | _ => none }

/-- One field of an entry whose column types are replaced by compatible ones. -/
theorem encodeField_compatible {parent child : ScalarKeyType} (h : compatible parent child = true)
    {values : List RowValue} {state result result' : KeyAccumulator} {column : ℕ}
    {direction : IndexDirection}
    (hparent : ScalarIndexEntry.encodeField values state ⟨column, direction, parent⟩ = .ok result)
    (hchild : ScalarIndexEntry.encodeField values state ⟨column, direction, child⟩ = .ok result') :
    result = result' := by
  simp only [ScalarIndexEntry.encodeField, bind_ok_iff, okOr_ok_iff, pure_ok_iff] at hparent hchild
  obtain ⟨value, hvalue, component, hcomponent, rfl⟩ := hparent
  obtain ⟨value', hvalue', component', hcomponent', rfl⟩ := hchild
  obtain rfl := Option.some.inj (hvalue.symm.trans hvalue')
  rw [encode_of_compatible h hcomponent hcomponent', isNull_of_compatible h]

/-- The fields of a relationship key, from the column at `start` on. -/
def fields (kinds : List ScalarKeyType) (start : ℕ) : List ScalarIndexField :=
  (kinds.zipIdx start).map fun (kind, ordinal) =>
    { column := ordinal, direction := .ascending, kind : ScalarIndexField }

/-- Compatible fields encode values alike. -/
theorem foldlM_encodeField_compatible {parents children : List ScalarKeyType}
    (h : List.Forall₂ (fun parent child => compatible parent child = true) parents children)
    {values : List RowValue} {start : ℕ} {state result result' : KeyAccumulator}
    (hparent : (fields parents start).foldlM (ScalarIndexEntry.encodeField values) state =
      .ok result)
    (hchild : (fields children start).foldlM (ScalarIndexEntry.encodeField values) state =
      .ok result') : result = result' := by
  induction h generalizing start state with
  | nil => exact Except.ok.inj (hparent.symm.trans hchild)
  | cons hfirst _ ih =>
    simp only [fields, List.zipIdx_cons, List.map_cons, List.foldlM_cons, bind_ok_iff]
      at hparent hchild
    obtain ⟨next, hnext, hparent⟩ := hparent
    obtain ⟨next', hnext', hchild⟩ := hchild
    obtain rfl := encodeField_compatible hfirst hnext hnext'
    exact ih hparent hchild

/-- Compatible column types encode values to the same key. -/
theorem encode_compatible {parents children : List ScalarKeyType}
    (h : List.Forall₂ (fun parent child => compatible parent child = true) parents children)
    {values : List RowValue} {key key' : Option Key} (hparent : encode parents values = .ok key)
    (hchild : encode children values = .ok key') : key = key' := by
  -- nulls are the same for both kinds
  have hnull : ((parents.zip values).all fun (kind, value) => kind.isNull value) =
      (children.zip values).all fun (kind, value) => kind.isNull value := by
    clear hparent hchild
    induction h generalizing values with
    | nil => rfl
    | cons hfirst _ ih =>
      cases values with
      | nil => rfl
      | cons value values =>
        rw [List.zip_cons_cons, List.zip_cons_cons, List.all_cons, List.all_cons]
        exact congrArg₂ (· && ·) (isNull_of_compatible hfirst value) ih
  simp only [encode, ScalarIndexEntry.encode, bind_ok_iff, exists_unit, refuseIf_ok_iff,
    mapError_ok_iff, okOr_ok_iff] at hparent hchild
  obtain ⟨-, entry, ⟨-, -, state, hfold, hentry⟩, result, hresult, hkey⟩ := hparent
  obtain ⟨-, entry', ⟨-, -, state', hfold', hentry'⟩, result', hresult', hkey'⟩ := hchild
  obtain rfl : state = state' := foldlM_encodeField_compatible h hfold hfold'
  obtain rfl : entry = entry' := Except.ok.inj (hentry.2.symm.trans hentry'.2)
  obtain rfl : result = result' := Option.some.inj (hresult.symm.trans hresult')
  rw [hnull] at hkey
  exact Except.ok.inj (hkey.symm.trans hkey')

/-- Only scalars are encoded. -/
theorem isScalar_of_encode {kind : ScalarKeyType} {value : RowValue} {direction : IndexDirection}
    {component : List UInt8} (h : kind.encode value direction = some component) :
    value.isScalar = true := by
  cases value <;> cases kind <;>
    simp [ScalarKeyType.encode, ScalarKeyType.plain, RowValue.isScalar] at h ⊢

/-- A key encodes only values a key field can hold. -/
theorem isScalar_of_encode_ok {kinds : List ScalarKeyType} {values : List RowValue}
    {key : Option Key} (h : encode kinds values = .ok key) :
    ∀ value ∈ values, value.isScalar = true := by
  simp only [encode, ScalarIndexEntry.encode, bind_ok_iff, exists_unit, refuseIf_ok_iff,
    mapError_ok_iff] at h
  obtain ⟨hlength, -, ⟨-, -, state, hfold, -⟩, -⟩ := h
  -- every field that was encoded holds a scalar, and every value has a field
  have hfields := foldlM_ok_induction (motive := fun done _ => ∀ field ∈ done, ∃ value,
      values[field.column]? = some value ∧ value.isScalar = true) (by simp)
    (fun done field rest t t' _ hdone hstep => by
      simp only [ScalarIndexEntry.encodeField, bind_ok_iff, okOr_ok_iff] at hstep
      obtain ⟨value, hvalue, component, hcomponent, -⟩ := hstep
      intro f hf
      rcases List.mem_append.mp hf with hf | hf
      · exact hdone f hf
      · rw [List.mem_singleton] at hf
        exact hf ▸ ⟨value, hvalue, isScalar_of_encode hcomponent⟩) hfold
  intro value hvalue
  obtain ⟨i, hi⟩ := List.mem_iff_getElem?.mp hvalue
  have hlt : i < kinds.length := by
    have hlt := (List.getElem?_eq_some_iff.mp hi).1
    omega
  obtain ⟨found, hfound, hscalar⟩ := hfields
    { column := i, direction := .ascending, kind := kinds[i] }
    (List.mem_map.mpr ⟨(kinds[i], i), List.mk_mem_zipIdx_iff_getElem?.mpr
      (List.getElem?_eq_getElem hlt), rfl⟩)
  rw [hi] at hfound
  exact Option.some.inj hfound ▸ hscalar

/-- The bytes by which keys are compared. -/
def bytes (key : Key) : List UInt8 :=
  key.entry.key

/-- The error of a child without a parent; it names the value where the key is one Long. -/
def violation (key : Key) (parent child : PageNumber) : WriteError :=
  match key.long with
  | some value => .relationshipConstraint parent child value
  | none => .scalarRelationshipConstraint parent child

/-- `sort`: by key bytes. The order the source leaves keys of equal bytes in is unspecified. -/
def sort (keys : List Key) : List Key :=
  keys.insertionSort fun left right => left.bytes ≤ right.bytes

/-- Whether a key is among those of the parents, which have to be sorted. -/
def contains (parent : List Key) (child : Key) : Bool :=
  match Search.binarySearchBy (fun key => compareBytes key.bytes child.bytes) parent with
  | .ok _ => true
  | .error _ => false

/-- The first child key no parent holds. -/
def missing (parent child : List Key) : Option Key :=
  child.find? fun key => !contains parent key

/-- No two neighbours of a sorted key list are equal and free of nulls. -/
def unique : List Key → Bool
  | a :: b :: rest => !(!a.entry.hasNull && a.bytes == b.bytes) && unique (b :: rest)
  | _ => true

@[simp]
theorem mem_sort {keys : List Key} {key : Key} : key ∈ sort keys ↔ key ∈ keys :=
  List.mem_insertionSort _

/-- Sorted keys ascend. -/
theorem sort_pairwise (keys : List Key) :
    (sort keys).Pairwise fun left right => left.bytes ≤ right.bytes := by
  have htotal : Std.Total fun left right : Key => left.bytes ≤ right.bytes :=
    ⟨fun a b => le_total a.bytes b.bytes⟩
  have htrans : IsTrans Key fun left right => left.bytes ≤ right.bytes :=
    ⟨fun _ _ _ => le_trans⟩
  exact List.pairwise_insertionSort _ keys

/-- Keys in the order of their bytes are searched correctly. -/
theorem contains_sorted_iff {keys : List Key} {child : Key}
    (h : keys.Pairwise fun left right => left.bytes ≤ right.bytes) :
    contains keys child = true ↔ ∃ key ∈ keys, key.bytes = child.bytes := by
  have hordered : keys.Pairwise fun a b =>
      (compareBytes a.bytes child.bytes = .gt → compareBytes b.bytes child.bytes = .gt) ∧
      (compareBytes b.bytes child.bytes = .lt → compareBytes a.bytes child.bytes = .lt) := by
    refine h.imp fun {a b} hle => ⟨fun ha => ?_, fun hb => ?_⟩
    · exact compareBytes_gt_iff.mpr ((compareBytes_gt_iff.mp ha).trans_le hle)
    · exact compareBytes_lt_iff.mpr (hle.trans_lt (compareBytes_lt_iff.mp hb))
  have hfound := Search.isOk_binarySearchBy_iff hordered
  simp only [compareBytes_eq_iff] at hfound
  rw [← hfound]
  unfold contains
  split
  · rename_i i hi
    simp [hi]
  · rename_i i hi
    simp [hi]

/-- A sorted key list is searched correctly. -/
theorem contains_sort_iff {parents : List Key} {child : Key} :
    contains (sort parents) child = true ↔ ∃ parent ∈ parents, parent.bytes = child.bytes := by
  rw [contains_sorted_iff (sort_pairwise parents)]
  simp only [mem_sort]

/-- Every child key has a parent exactly when none is missing. -/
theorem missing_sort_eq_none_iff {parents children : List Key} :
    missing (sort parents) children = none ↔
      ∀ child ∈ children, ∃ parent ∈ parents, parent.bytes = child.bytes := by
  simp only [missing, List.find?_eq_none, Bool.not_eq_true', Bool.not_eq_false, contains_sort_iff]

end Key

end Jet3
