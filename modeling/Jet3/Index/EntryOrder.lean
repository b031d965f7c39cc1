import Jet3.Index.Key.Order
import Jet3.Index.KeyOrder

/-!
# Keys order rows as the values do

Rows are compared field by field, each field in its own direction. As long as no key is shortened,
their keys compare in the same way: components are compared one after the other, because no
component is a proper prefix of another one of its column.
-/

namespace Jet3

open Outcome PrefixCode
open scoped ByteOrder

/-- The comparison of two rows in one field. -/
def ScalarIndexField.compare (field : ScalarIndexField) (values values' : List RowValue) :
    Ordering :=
  field.direction.apply
    ((field.kind.sortValue (values.getD field.column .null)).compare
      (field.kind.sortValue (values'.getD field.column .null)))

/-- Rows compare by the first field in which they differ. -/
def compareRows (fields : List ScalarIndexField) (values values' : List RowValue) : Ordering :=
  fields.foldr (fun field rest => (field.compare values values').then rest) .eq

/-- Rows compare equal where every field does. -/
theorem compareRows_eq_iff {fields : List ScalarIndexField} {values values' : List RowValue} :
    compareRows fields values values' = .eq ↔
      ∀ field ∈ fields, field.compare values values' = .eq := by
  induction fields with
  | nil => simp [compareRows]
  | cons field fields ih =>
    rw [List.forall_mem_cons, ← ih, compareRows, List.foldr_cons, Ordering.then_eq_eq]
    rfl

namespace ScalarIndexEntry

/-- The component of one field. -/
def component (values : List RowValue) (field : ScalarIndexField) : List UInt8 :=
  (values[field.column]?.bind fun value => field.kind.encode value field.direction).getD []

/-- The key of a row before it is shortened. -/
def unshortened (fields : List ScalarIndexField) (values : List RowValue) : List UInt8 :=
  fields.flatMap (component values)

/-- Every field of a row has a component. -/
def Encodable (fields : List ScalarIndexField) (values : List RowValue) : Prop :=
  ∀ field ∈ fields, field.kind.encode (values.getD field.column .null) field.direction =
    some (component values field)

/-- The components of a row, one for each field, make up its key before it is cut. -/
theorem foldlM_encodeField_key {fields : List ScalarIndexField} {values : List RowValue}
    {state state' : KeyAccumulator} (h : fields.foldlM (encodeField values) state = .ok state') :
    Encodable fields values ∧ state'.key = state.key ++ unshortened fields values := by
  induction fields generalizing state with
  | nil =>
    simp only [List.foldlM_nil, pure_ok_iff] at h
    subst h
    refine ⟨?_, (List.append_nil _).symm⟩
    intro field hfield
    cases hfield
  | cons field fields ih =>
    simp only [List.foldlM_cons, encodeField, bind_ok_iff, okOr_ok_iff, pure_ok_iff] at h
    obtain ⟨next, ⟨value, hvalue, bytes, hbytes, rfl⟩, hrest⟩ := h
    obtain ⟨hencodable, hkey⟩ := ih hrest
    have hcomponent : component values field = bytes := by
      rw [component, hvalue, Option.bind_some, hbytes, Option.getD_some]
    refine ⟨?_, ?_⟩
    · rw [Encodable, List.forall_mem_cons]
      refine ⟨?_, hencodable⟩
      rw [List.getD_eq_getElem?_getD, hvalue, Option.getD_some, hbytes, hcomponent]
    · have hcons : unshortened (field :: fields) values = bytes ++ unshortened fields values := by
        rw [unshortened, List.flatMap_cons, hcomponent, unshortened]
      rw [hkey, hcons, List.append_assoc]

/-- The key of an entry is the shortened sequence of its components. -/
theorem encode_key {fields : List ScalarIndexField} {values : List RowValue}
    {nullPolicy : IndexNullPolicy} {locator : RowLocator} {entry : ScalarIndexEntry}
    (h : encode fields values nullPolicy locator = .ok (some entry)) :
    Encodable fields values ∧ entry.key = Binary.shorten (unshortened fields values) := by
  simp only [encode, bind_ok_iff, exists_unit, refuseIf_ok_iff] at h
  obtain ⟨-, -, state, hfold, -, hentry⟩ := h
  split at hentry
  · cases hentry
  · obtain rfl := Option.some.inj (pure_ok_iff.mp hentry)
    obtain ⟨hencodable, hkey⟩ := foldlM_encodeField_key hfold
    exact ⟨hencodable, by rw [hkey, List.nil_append]⟩

/-- Sequences of components compare field by field. -/
theorem compare_unshortened {fields : List ScalarIndexField} {values values' : List RowValue}
    (h : Encodable fields values) (h' : Encodable fields values') :
    compareBytes (unshortened fields values) (unshortened fields values') =
      compareRows fields values values' := by
  induction fields with
  | nil => rfl
  | cons field fields ih =>
    rw [Encodable, List.forall_mem_cons] at h h'
    have hcode := ScalarKeyType.prefixFree_code field.kind field.direction
    rw [unshortened, unshortened, List.flatMap_cons, List.flatMap_cons,
      compareBytes_append (hcode _ ⟨_, h.1⟩ _ ⟨_, h'.1⟩)
        (fun hpre => (hcode _ ⟨_, h'.1⟩ _ ⟨_, h.1⟩ hpre).symm),
      ScalarKeyType.compare_encode h.1 h'.1]
    exact congrArg _ (ih h.2 h'.2)

/-- The key of a row, before it is cut, is one the fields can have. -/
theorem unshortened_mem_keyCode {fields : List ScalarIndexField} {values : List RowValue}
    (h : Encodable fields values) : unshortened fields values ∈ keyCode fields := by
  refine ⟨fields.map (component values), ?_, List.flatMap_def ..⟩
  rw [List.forall₂_map_left_iff, List.forall₂_map_right_iff, List.forall₂_same]
  exact fun field hmem => ⟨_, h field hmem⟩

/-- Unshortened keys compare as their rows, are equal exactly where the rows agree in every field,
and are never proper prefixes of one another. -/
theorem encode_orders {fields : List ScalarIndexField} {values values' : List RowValue}
    {nullPolicy nullPolicy' : IndexNullPolicy} {locator locator' : RowLocator}
    {entry entry' : ScalarIndexEntry}
    (h : encode fields values nullPolicy locator = .ok (some entry))
    (h' : encode fields values' nullPolicy' locator' = .ok (some entry'))
    (hshort : (unshortened fields values).length ≤ maxKeyBytes)
    (hshort' : (unshortened fields values').length ≤ maxKeyBytes) :
    compareBytes entry.key entry'.key = compareRows fields values values' ∧
      (entry.key = entry'.key ↔ ∀ field ∈ fields, field.compare values values' = .eq) ∧
      (entry.key <+: entry'.key → entry.key = entry'.key) := by
  obtain ⟨hencodable, hkey⟩ := encode_key h
  obtain ⟨hencodable', hkey'⟩ := encode_key h'
  rw [Binary.shorten, if_pos hshort] at hkey
  rw [Binary.shorten, if_pos hshort'] at hkey'
  have hcompare := compare_unshortened hencodable hencodable'
  rw [hkey, hkey']
  refine ⟨hcompare, ?_, ?_⟩
  · rw [← compareRows_eq_iff, ← hcompare, compareBytes_eq_iff]
  · exact prefixFree_keyCode fields _ (unshortened_mem_keyCode hencodable) _
      (unshortened_mem_keyCode hencodable')

/-- A descending Binary column and an ascending Text column. -/
def sampleFields : List ScalarIndexField :=
  [{ column := 0, direction := .descending, kind := .binary 20 },
   { column := 1, direction := .ascending, kind := .text 10 .general }]

/-- Nine bytes against their first eight, in descending order. -/
theorem encode_orders_descendingBinary :
    ∃ entry entry', encode sampleFields [.binary (List.replicate 9 1), .text [0x61, 0x20]] .include
        { page := 5, slot := 0 } = .ok (some entry) ∧
      encode sampleFields [.binary (List.replicate 8 1), .text [0xe4]] .include
        { page := 5, slot := 1 } = .ok (some entry') ∧
      compareBytes entry.key entry'.key = .lt := by
  obtain ⟨entry, hentry⟩ := exists_ok_some
    (x := encode sampleFields [.binary (List.replicate 9 1), .text [0x61, 0x20]] .include
      { page := 5, slot := 0 }) (by decide +kernel)
  obtain ⟨entry', hentry'⟩ := exists_ok_some
    (x := encode sampleFields [.binary (List.replicate 8 1), .text [0xe4]] .include
      { page := 5, slot := 1 }) (by decide +kernel)
  refine ⟨entry, entry', hentry, hentry', ?_⟩
  rw [(encode_orders hentry hentry' (by decide +kernel) (by decide +kernel)).1]
  decide +kernel

/-- A null in a Boolean column is stored as False, and True comes before False: this null does not
come before every value. -/
theorem encode_nullBoolean :
    let fields : List ScalarIndexField :=
      [{ column := 0, direction := .ascending, kind := .boolean }]
    ∃ entry entry', encode fields [.null] .include { page := 5, slot := 0 } = .ok (some entry) ∧
      encode fields [.boolean true] .include { page := 5, slot := 1 } = .ok (some entry') ∧
      (unshortened fields [.null]).length ≤ maxKeyBytes ∧
      (unshortened fields [.boolean true]).length ≤ maxKeyBytes ∧
      compareBytes entry.key entry'.key = .gt := by
  refine ⟨⟨[0x7f, 0xff], { page := 5, slot := 0 }, false⟩,
    ⟨[0x7f, 0], { page := 5, slot := 1 }, false⟩, ?_⟩
  decide +kernel

end ScalarIndexEntry

end Jet3
