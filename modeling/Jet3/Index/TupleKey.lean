import Jet3.Index.EntryOrder

/-!
# Keys of tuples

The values of some key fields, each with the column type and direction of its field, and the bytes
their components make together before they are shortened.

* `tupleKey_prefixFree` says that these bytes tell tuples apart exactly where they differ as values;
* `shorten_eq_iff` says that a stored key does, except for the tuples `Conflate` names: shortening
  makes their keys equal, and one of them does not fit a key.
-/

namespace Jet3

open Outcome PrefixCode
open scoped ByteOrder

/-! ## One component -/

/-- The constructor of a sort value. -/
def SortValue.shape : SortValue → ℕ
  | null => 0
  | number _ => 1
  | bytes _ => 2
  | text _ _ => 3

/-- Values of one form, or nulls, compare equal exactly where they are. -/
theorem SortValue.compare_eq_iff {s t : SortValue}
    (h : s.shape = 0 ∨ t.shape = 0 ∨ s.shape = t.shape) : s.compare t = .eq ↔ s = t := by
  cases s <;> cases t <;>
    simp [shape, SortValue.compare, compareBytes_eq_iff, Ordering.then_eq_eq] at h ⊢

namespace ScalarKeyType

/-- The column type without its declared length. -/
def widen : ScalarKeyType → ScalarKeyType
  | binary _ => binary 255
  | text _ order => text 255 order
  | kind => kind

/-- A longer maximum leaves the order of values as it is. -/
@[simp]
theorem sortValue_widen (kind : ScalarKeyType) (value : RowValue) :
    kind.widen.sortValue value = kind.sortValue value := by
  cases kind with
  | binary maximum =>
    cases value with
    | binary bytes => cases bytes <;> rfl
    | _ => rfl
  | text maximum order => cases value <;> rfl
  | _ => rfl

/-- It leaves nulls as they are. -/
@[simp]
theorem isNull_widen (kind : ScalarKeyType) (value : RowValue) :
    kind.widen.isNull value = kind.isNull value := by
  cases kind <;> simp [widen, isNull, isBinary]

theorem le_maximum (maximum : UInt8) : maximum.toNat ≤ (255 : UInt8).toNat :=
  Nat.le_of_lt_succ maximum.toNat_lt

/-- A wider column encodes a value alike. -/
theorem encode_widen {kind : ScalarKeyType} {value : RowValue} {direction : IndexDirection}
    {component : List UInt8} (h : kind.encode value direction = some component) :
    kind.widen.encode value direction = some component := by
  cases kind with
  | binary maximum =>
    cases value with
    | binary bytes =>
      have hle := le_maximum maximum
      simp only [widen, encode, Binary.encode] at h ⊢
      split at h
      · cases h
      · rw [if_neg (by omega)]
        exact h
    | _ => exact h
  | text maximum order =>
    cases value with
    | text bytes =>
      have hle := le_maximum maximum
      simp only [widen, encode, LocaleText.encode, Text.encode] at h ⊢
      split at h
      · rename_i hgeneral
        rw [if_pos hgeneral]
        split at h
        · cases h
        · rw [if_neg (by omega)]
          exact h
      · rename_i hgeneral
        rw [if_neg hgeneral]
        split at h
        · cases h
        · rw [if_neg (by omega)]
          exact h
    | _ => exact h
  | _ => exact h

/-- The form the values of a column order by. -/
def shape : ScalarKeyType → ℕ
  | binary _ | guid => 2
  | text _ _ => 3
  | _ => 1

theorem shape_sortValue (kind : ScalarKeyType) (value : RowValue) :
    (kind.sortValue value).shape = 0 ∨ (kind.sortValue value).shape = kind.shape := by
  cases value with
  | binary bytes =>
    cases kind with
    | binary maximum =>
      -- An empty value is a null to its index.
      cases bytes with
      | nil => exact .inl rfl
      | cons byte bytes => exact .inr rfl
    | boolean => exact .inr rfl
    | _ => exact .inl rfl
  | boolean value =>
    cases kind with
    | boolean => cases value <;> exact .inr rfl
    | _ => exact .inl rfl
  | _ => cases kind <;> first | exact .inl rfl | exact .inr rfl

/-- Components are equal exactly where the values are. -/
theorem encode_eq_iff {kind : ScalarKeyType} {v w : RowValue} {direction : IndexDirection}
    {a b : List UInt8} (hv : kind.encode v direction = some a)
    (hw : kind.encode w direction = some b) :
    a = b ↔ kind.sortValue v = kind.sortValue w := by
  have hshape := kind.shape_sortValue v
  have hshape' := kind.shape_sortValue w
  rw [← compareBytes_eq_iff, compare_encode hv hw, IndexDirection.apply_eq_iff,
    SortValue.compare_eq_iff (by omega)]

/-- Whether a value is encoded does not depend on the direction. -/
theorem exists_encode_direction {kind : ScalarKeyType} {value : RowValue}
    {direction : IndexDirection} {component : List UInt8}
    (h : kind.encode value direction = some component) (direction' : IndexDirection) :
    ∃ component', kind.encode value direction' = some component' := by
  have hbinary : ∀ {bytes : List UInt8} {maximum : ℕ},
      Binary.encode bytes maximum direction = some component →
        ∃ component', Binary.encode bytes maximum direction' = some component' := by
    intro bytes maximum h
    unfold Binary.encode at h ⊢
    split at h
    · cases h
    · rename_i hlength
      rw [if_neg hlength]
      split <;> exact ⟨_, rfl⟩
  have hplain : (plain kind value).map (List.map (· ^^^ direction.mask)) = some component →
      ∃ component', (plain kind value).map (List.map (· ^^^ direction'.mask)) =
        some component' := by
    intro h
    obtain ⟨bytes, hbytes, -⟩ := Option.map_eq_some_iff.mp h
    rw [hbytes]
    exact ⟨_, rfl⟩
  -- only the direction's mask differs, and no check looks at it
  cases kind with
  | binary maximum =>
    cases value with
    | binary bytes => exact hbinary h
    | _ => exact hplain h
  | text maximum order =>
    cases value with
    | text bytes =>
      simp only [encode, LocaleText.encode, Text.encode] at h ⊢
      split at h
      · rename_i hgeneral
        rw [if_pos hgeneral]
        split at h
        · cases h
        · rename_i hlength
          rw [if_neg hlength]
          split at h
          · cases h
          · rename_i hmapped
            exact ⟨_, if_neg hmapped⟩
      · rename_i hgeneral
        rw [if_neg hgeneral]
        split at h
        · cases h
        · rename_i hlength
          rw [if_neg hlength]
          simp only [Option.bind_eq_bind, Option.bind_eq_some_iff] at h ⊢
          obtain ⟨tables, htables, page, hpage, h⟩ := h
          split at h
          · cases h
          · rename_i hmapped
            exact ⟨_, tables, htables, page, hpage, if_neg hmapped⟩
    | _ => exact hplain h
  | guid =>
    cases value with
    | guid bytes => exact hbinary h
    | _ => exact hplain h
  | _ => exact hplain h

end ScalarKeyType

/-! ## Tuples -/

/-- The components of a tuple, one behind the other. -/
def tupleKey : List (ScalarKeyType × IndexDirection) → List RowValue → Option (List UInt8)
  | [], [] => some []
  | (kind, direction) :: kinds, value :: values => do
    let component ← kind.encode value direction
    let rest ← tupleKey kinds values
    return component ++ rest
  | _, _ => none

variable {kinds : List (ScalarKeyType × IndexDirection)} {v w : List RowValue} {a b : List UInt8}

/-- The key of a tuple starts with the component of its first value. -/
theorem tupleKey_cons_eq_some {kind : ScalarKeyType} {direction : IndexDirection}
    {value : RowValue} :
    tupleKey ((kind, direction) :: kinds) (value :: v) = some a ↔
      ∃ component rest, kind.encode value direction = some component ∧ tupleKey kinds v =
        some rest ∧
        a = component ++ rest := by
  simp only [tupleKey, Option.bind_eq_bind, Option.bind_eq_some_iff, Option.pure_def,
    Option.some.injEq]
  constructor
  · rintro ⟨component, hcomponent, rest, hrest, rfl⟩
    exact ⟨component, rest, hcomponent, hrest, rfl⟩
  · rintro ⟨component, rest, hcomponent, hrest, rfl⟩
    exact ⟨component, hcomponent, rest, hrest, rfl⟩

/-- A tuple with a key has a value for each field. -/
theorem length_of_tupleKey (h : tupleKey kinds v = some a) : v.length = kinds.length := by
  induction kinds, v using tupleKey.induct generalizing a with
  | case1 => rfl
  | case2 kind direction kinds value v ih =>
    obtain ⟨-, rest, -, hrest, -⟩ := tupleKey_cons_eq_some.mp h
    rw [List.length_cons, List.length_cons, ih hrest]
  | case3 kinds v hnil hcons =>
    rw [tupleKey] at h
    · cases h
    · exact hnil
    · exact hcons

/-- Two tuples are equal field by field. -/
def SameTuple : List (ScalarKeyType × IndexDirection) → List RowValue → List RowValue → Prop
  | [], [], [] => True
  | (kind, _) :: kinds, value :: v, other :: w =>
    kind.sortValue value = kind.sortValue other ∧ SameTuple kinds v w
  | _, _, _ => False

/-- Keys of tuples are never proper prefixes of each other, and are equal exactly where the tuples
are. -/
theorem tupleKey_prefixFree (hv : tupleKey kinds v = some a) (hw : tupleKey kinds w = some b) :
    (a <+: b → a = b) ∧ (a = b ↔ SameTuple kinds v w) := by
  induction kinds generalizing v w a b with
  | nil =>
    obtain rfl : v = [] := List.length_eq_zero_iff.mp (length_of_tupleKey hv)
    obtain rfl : w = [] := List.length_eq_zero_iff.mp (length_of_tupleKey hw)
    cases hv
    cases hw
    exact ⟨fun _ => rfl, ⟨fun _ => trivial, fun _ => rfl⟩⟩
  | cons field kinds ih =>
    obtain ⟨kind, direction⟩ := field
    obtain ⟨value, v, rfl⟩ : ∃ value rest, v = value :: rest :=
      List.exists_cons_of_length_eq_add_one (length_of_tupleKey hv)
    obtain ⟨other, w, rfl⟩ : ∃ value rest, w = value :: rest :=
      List.exists_cons_of_length_eq_add_one (length_of_tupleKey hw)
    obtain ⟨component, rest, hcomponent, hrest, rfl⟩ := tupleKey_cons_eq_some.mp hv
    obtain ⟨component', rest', hcomponent', hrest', rfl⟩ := tupleKey_cons_eq_some.mp hw
    obtain ⟨hstarts, hsame⟩ := ih hrest hrest'
    have hcode := ScalarKeyType.prefixFree_code kind direction
    have happend : ∀ h : component ++ rest <+: component' ++ rest',
        component = component' ∧ rest <+: rest' :=
      fun h => hcode.append ⟨value, hcomponent⟩ ⟨other, hcomponent'⟩ h
    refine ⟨fun h => ?_, ?_⟩
    · obtain ⟨rfl, hle⟩ := happend h
      rw [hstarts hle]
    · rw [SameTuple, ← ScalarKeyType.encode_eq_iff hcomponent hcomponent', ← hsame]
      constructor
      · intro h
        obtain ⟨rfl, -⟩ := happend (h ▸ List.prefix_refl _)
        exact ⟨rfl, List.append_cancel_left h⟩
      · rintro ⟨rfl, rfl⟩
        rfl

/-! ## Shortening -/

/-- Shortening brings the keys of two different tuples together: one is the beginning of the
other. -/
def Collide (kinds : List (ScalarKeyType × IndexDirection)) (v w : List RowValue) : Prop :=
  ∃ a b, tupleKey kinds v = some a ∧ tupleKey kinds w = some b ∧ a ≠ b ∧
    (Binary.shorten a <+: Binary.shorten b ∨ Binary.shorten b <+: Binary.shorten a)

/-- Collisions are symmetric. -/
theorem Collide.symm (h : Collide kinds v w) : Collide kinds w v := by
  obtain ⟨a, b, ha, hb, hne, hstarts⟩ := h
  exact ⟨b, a, hb, ha, hne.symm, hstarts.symm⟩

/-- Tuples whose keys are stored whole do not collide. -/
theorem not_collide_of_length_le (hv : tupleKey kinds v = some a) (hw : tupleKey kinds w = some b)
    (ha : a.length ≤ maxKeyBytes) (hb : b.length ≤ maxKeyBytes) : ¬Collide kinds v w := by
  rintro ⟨a', b', ha', hb', hne, hstarts⟩
  obtain rfl := Option.some.inj (hv.symm.trans ha')
  obtain rfl := Option.some.inj (hw.symm.trans hb')
  rw [Binary.shorten, if_pos ha, Binary.shorten, if_pos hb] at hstarts
  rcases hstarts with h | h
  · exact hne ((tupleKey_prefixFree hv hw).1 h)
  · exact hne ((tupleKey_prefixFree hw hv).1 h).symm

/-- Shortening makes the keys of two different tuples equal. -/
def Conflate (kinds : List (ScalarKeyType × IndexDirection)) (v w : List RowValue) : Prop :=
  ∃ a b, tupleKey kinds v = some a ∧ tupleKey kinds w = some b ∧ a ≠ b ∧
    Binary.shorten a = Binary.shorten b

/-- Values that are conflated collide. -/
theorem Conflate.collide (h : Conflate kinds v w) : Collide kinds v w := by
  obtain ⟨a, b, ha, hb, hne, hequal⟩ := h
  exact ⟨a, b, ha, hb, hne, .inl (hequal ▸ List.prefix_refl _)⟩

/-- Shortened keys are equal where the tuples are, or are conflated. -/
theorem shorten_eq_iff (hv : tupleKey kinds v = some a) (hw : tupleKey kinds w = some b) :
    Binary.shorten a = Binary.shorten b ↔ SameTuple kinds v w ∨ Conflate kinds v w := by
  rw [← (tupleKey_prefixFree hv hw).2]
  constructor
  · intro h
    by_cases hsame : a = b
    · exact .inl hsame
    · exact .inr ⟨a, b, hv, hw, hsame, h⟩
  · rintro (h | ⟨a', b', ha, hb, -, h⟩)
    · rw [h]
    · obtain rfl := Option.some.inj (hv.symm.trans ha)
      obtain rfl := Option.some.inj (hw.symm.trans hb)
      exact h

/-! ## Tuples of rows -/

/-- The column types and directions of some fields. -/
def fieldKinds (fields : List ScalarIndexField) : List (ScalarKeyType × IndexDirection) :=
  fields.map fun field => (field.kind, field.direction)

/-- The values a row has in some fields. -/
def fieldValues (fields : List ScalarIndexField) (values : List RowValue) : List RowValue :=
  fields.map fun field => values.getD field.column .null

/-- The null fields of a tuple. -/
def nullFields (kinds : List (ScalarKeyType × IndexDirection)) (v : List RowValue) : List Bool :=
  List.zipWith (fun field value => field.1.isNull value) kinds v

/-- The loop over the fields of an entry collects the key of the tuple. -/
theorem foldlM_encodeField_ok_iff {fields : List ScalarIndexField} {values : List RowValue}
    {state state' : KeyAccumulator} :
    fields.foldlM (ScalarIndexEntry.encodeField values) state = .ok state' ↔
      (∀ field ∈ fields, field.column < values.length) ∧
        ∃ key, tupleKey (fieldKinds fields) (fieldValues fields values) = some key ∧
          state' = { key := state.key ++ key
                     hasNull := state.hasNull ||
                       (nullFields (fieldKinds fields) (fieldValues fields values)).any id
                     allNull := state.allNull &&
                       (nullFields (fieldKinds fields) (fieldValues fields values)).all id } := by
  induction fields generalizing state with
  | nil =>
    rw [List.foldlM_nil, pure_ok_iff]
    simp [fieldKinds, fieldValues, nullFields, tupleKey, eq_comm]
  | cons field fields ih =>
    rw [List.foldlM_cons, bind_ok_iff, List.forall_mem_cons]
    have hkinds : fieldKinds (field :: fields) =
      (field.kind, field.direction) :: fieldKinds fields :=
      rfl
    have hvalues : fieldValues (field :: fields) values =
      values.getD field.column .null :: fieldValues fields values := rfl
    simp only [ih, ScalarIndexEntry.encodeField, bind_ok_iff, okOr_ok_iff, pure_ok_iff, hkinds,
      hvalues, tupleKey_cons_eq_some, nullFields, List.zipWith_cons_cons, List.any_cons,
      List.all_cons, id]
    constructor
    · rintro ⟨_, ⟨value, hvalue, component, hcomponent, rfl⟩, hcolumns, key, hkey, rfl⟩
      have hget : values.getD field.column .null = value := by
        rw [List.getD_eq_getElem?_getD, hvalue, Option.getD_some]
      refine ⟨⟨(List.getElem?_eq_some_iff.mp hvalue).1, hcolumns⟩, component ++ key,
        ⟨component, key, by rw [hget]; exact hcomponent, hkey, rfl⟩, ?_⟩
      rw [hget]
      simp [Bool.or_assoc, Bool.and_assoc]
    · rintro ⟨⟨hcolumn, hcolumns⟩, _, ⟨component, key, hcomponent, hkey, rfl⟩, rfl⟩
      refine ⟨_, ⟨_, List.getElem?_eq_getElem hcolumn, component, ?_, rfl⟩, hcolumns, key, hkey, ?_⟩
      · rwa [List.getD_eq_getElem?_getD, List.getElem?_eq_getElem hcolumn, Option.getD_some]
          at hcomponent
      · rw [List.getD_eq_getElem?_getD, List.getElem?_eq_getElem hcolumn, Option.getD_some]
        simp [Bool.or_assoc, Bool.and_assoc]

end Jet3
