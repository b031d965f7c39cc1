import Jet3.Create.InitialIndex
import Jet3.Index.KeyOrder
import Jet3.Index.TupleKey

/-!
# Relationship keys compare values

Referential checks search encoded keys. What they find are the tuples equal to the one looked up,
field by field, unless a key is too long to be stored whole and its shortened form collides.

* `Key.contains_iff` and `Key.unique_iff` say it of the checks over existing rows;
* `InitialScalarIndex.containsKey_iff` says it of the lookup in the index of a new table.
-/

namespace Jet3

open Outcome PrefixCode
open scoped ByteOrder

/-! ## Tuples without declared lengths -/

/-- Key fields without their declared lengths. -/
def widenKinds (kinds : List (ScalarKeyType × IndexDirection)) :
    List (ScalarKeyType × IndexDirection) :=
  kinds.map fun field => (field.1.widen, field.2)

/-- A longer maximum encodes the same key. -/
theorem tupleKey_widen {kinds : List (ScalarKeyType × IndexDirection)} {v : List RowValue}
    {a : List UInt8} (h : tupleKey kinds v = some a) : tupleKey (widenKinds kinds) v = some a := by
  induction kinds generalizing v a with
  | nil => exact h
  | cons field kinds ih =>
    obtain ⟨kind, direction⟩ := field
    obtain ⟨value, v, rfl⟩ : ∃ value rest, v = value :: rest :=
      List.exists_cons_of_length_eq_add_one (length_of_tupleKey h)
    obtain ⟨component, rest, hcomponent, hrest, rfl⟩ := tupleKey_cons_eq_some.mp h
    exact tupleKey_cons_eq_some.mpr
      ⟨component, rest, ScalarKeyType.encode_widen hcomponent, ih hrest, rfl⟩

/-- It leaves nulls as they are. -/
theorem nullFields_widen (kinds : List (ScalarKeyType × IndexDirection)) (values : List RowValue) :
    nullFields (widenKinds kinds) values = nullFields kinds values := by
  induction kinds generalizing values with
  | nil => rfl
  | cons field kinds ih =>
    cases values with
    | nil => rfl
    | cons value values =>
      show field.1.widen.isNull value :: nullFields (widenKinds kinds) values = _
      rw [ih, ScalarKeyType.isNull_widen]
      rfl

/-- Compatible types differ in their maximum only. -/
theorem widen_of_compatible {parent child : ScalarKeyType} (h : compatible parent child = true) :
    parent.widen = child.widen := by
  cases parent <;> cases child <;> simp_all [compatible, ScalarKeyType.widen]

/-- Whether a value a column holds is null is told by what it orders by. -/
theorem ScalarKeyType.isNull_iff {kind : ScalarKeyType} {value : RowValue}
    {direction : IndexDirection} {component : List UInt8}
    (h : kind.encode value direction = some component) :
    kind.isNull value = true ↔ kind.sortValue value = .null := by
  cases value with
  | binary bytes =>
    cases kind with
    | binary maximum => cases bytes <;> simp [isNull, isBinary, sortValue]
    | _ => cases h
  | boolean value =>
    cases kind with
    | boolean => cases value <;> simp [isNull, isBinary, sortValue]
    | _ => cases h
  | _ => cases kind <;> first | cases h; done | simp [isNull, isBinary, sortValue]

/-- The component of a null is one byte. -/
theorem ScalarKeyType.length_of_isNull {kind : ScalarKeyType} {value : RowValue}
    {direction : IndexDirection} {component : List UInt8}
    (h : kind.encode value direction = some component) (hnull : kind.isNull value = true) :
    component.length = 1 := by
  cases value with
  | null =>
    cases kind with
    | boolean => cases hnull
    | _ =>
      cases h
      rfl
  | binary bytes =>
    cases kind with
    | binary maximum =>
      cases bytes with
      | nil =>
        cases h
        rfl
      | cons byte bytes => simp [isNull] at hnull
    | _ => cases h
  | _ => simp [isNull] at hnull

theorem length_of_nullFields {kinds : List (ScalarKeyType × IndexDirection)} {v : List RowValue}
    {a : List UInt8} (hv : tupleKey kinds v = some a) (hnull : (nullFields kinds v).all id = true) :
    a.length = kinds.length := by
  induction kinds generalizing v a with
  | nil =>
    obtain rfl : v = [] := List.length_eq_zero_iff.mp (length_of_tupleKey hv)
    cases hv
    rfl
  | cons field kinds ih =>
    obtain ⟨kind, direction⟩ := field
    obtain ⟨value, v, rfl⟩ : ∃ value rest, v = value :: rest :=
      List.exists_cons_of_length_eq_add_one (length_of_tupleKey hv)
    obtain ⟨component, rest, hcomponent, hrest, rfl⟩ := tupleKey_cons_eq_some.mp hv
    have hsplit : kind.isNull value = true ∧ (nullFields kinds v).all id = true :=
      Bool.and_eq_true_iff.mp hnull
    rw [List.length_append, ScalarKeyType.length_of_isNull hcomponent hsplit.1, ih hrest hsplit.2,
      List.length_cons, Nat.add_comm]

/-- A tuple of nulls is conflated with none. -/
theorem nullFields_of_conflate {kinds : List (ScalarKeyType × IndexDirection)}
    {v w : List RowValue} (hkinds : kinds.length ≤ maxFields) (h : Conflate kinds v w) :
    (nullFields kinds v).all id = false := by
  obtain ⟨a, b, ha, hb, hne, hequal⟩ := h
  rw [← Bool.not_eq_true]
  intro hnull
  have hshort := length_of_nullFields ha hnull
  have hlengths := congrArg List.length hequal
  have hfits : maxFields < maxKeyBytes := by decide
  rw [Binary.length_shorten, Binary.length_shorten] at hlengths
  -- the other key would be as short, and neither is shortened
  rw [Binary.shorten, if_pos (by omega), Binary.shorten, if_pos (by omega)] at hequal
  exact hne hequal

/-- Equal tuples have their nulls in the same fields. -/
theorem nullFields_of_same {kinds : List (ScalarKeyType × IndexDirection)} {v w : List RowValue}
    {a b : List UInt8} (hv : tupleKey kinds v = some a) (hw : tupleKey kinds w = some b)
    (h : SameTuple kinds v w) : nullFields kinds v = nullFields kinds w := by
  induction kinds generalizing v w a b with
  | nil => rfl
  | cons field kinds ih =>
    obtain ⟨kind, direction⟩ := field
    obtain ⟨value, v, rfl⟩ : ∃ value rest, v = value :: rest :=
      List.exists_cons_of_length_eq_add_one (length_of_tupleKey hv)
    obtain ⟨other, w, rfl⟩ : ∃ value rest, w = value :: rest :=
      List.exists_cons_of_length_eq_add_one (length_of_tupleKey hw)
    obtain ⟨component, rest, hcomponent, hrest, rfl⟩ := tupleKey_cons_eq_some.mp hv
    obtain ⟨component', rest', hcomponent', hrest', rfl⟩ := tupleKey_cons_eq_some.mp hw
    obtain ⟨hvalue, htuple⟩ := h
    -- whether a field is null is seen in its component
    have hnull : kind.isNull value = kind.isNull other := by
      rw [Bool.eq_iff_iff, ScalarKeyType.isNull_iff hcomponent,
        ScalarKeyType.isNull_iff hcomponent', hvalue]
    show kind.isNull value :: nullFields kinds v = kind.isNull other :: nullFields kinds w
    rw [hnull, ih hrest hrest' htuple]

/-- Tuples are equal in one direction as in another. -/
theorem sameTuple_of_kinds {kinds kinds' : List (ScalarKeyType × IndexDirection)}
    {v w : List RowValue} (hkinds : kinds.map Prod.fst = kinds'.map Prod.fst)
    (h : SameTuple kinds v w) : SameTuple kinds' v w := by
  induction kinds generalizing kinds' v w with
  | nil =>
    cases kinds' with
    | nil => exact h
    | cons field kinds' => cases hkinds
  | cons field kinds ih =>
    cases kinds' with
    | nil => cases hkinds
    | cons field' kinds' =>
      rw [List.map_cons, List.map_cons, List.cons.injEq] at hkinds
      cases v with
      | nil => cases h
      | cons value v =>
        cases w with
        | nil => cases h
        | cons other w =>
          obtain ⟨hvalue, htuple⟩ := h
          exact ⟨hkinds.1 ▸ hvalue, ih hkinds.2 htuple⟩

theorem nullFields_of_kinds {kinds kinds' : List (ScalarKeyType × IndexDirection)}
    {values : List RowValue} (hkinds : kinds.map Prod.fst = kinds'.map Prod.fst) :
    nullFields kinds values = nullFields kinds' values := by
  have hmap : ∀ kinds : List (ScalarKeyType × IndexDirection), nullFields kinds values =
      List.zipWith ScalarKeyType.isNull (kinds.map Prod.fst) values := fun kinds => by
    rw [List.zipWith_map_left]
    rfl
  rw [hmap, hmap, hkinds]

/-- A tuple with a key in some directions has one in others. -/
theorem tupleKey_of_kinds {kinds kinds' : List (ScalarKeyType × IndexDirection)} {v : List RowValue}
    {a : List UInt8} (hkinds : kinds.map Prod.fst = kinds'.map Prod.fst)
    (h : tupleKey kinds v = some a) : ∃ a', tupleKey kinds' v = some a' := by
  induction kinds generalizing kinds' v a with
  | nil =>
    cases kinds' with
    | nil => exact ⟨a, h⟩
    | cons field' kinds' => cases hkinds
  | cons field kinds ih =>
    cases kinds' with
    | nil => cases hkinds
    | cons field' kinds' =>
      obtain ⟨kind, direction⟩ := field
      obtain ⟨kind', direction'⟩ := field'
      rw [List.map_cons, List.map_cons, List.cons.injEq] at hkinds
      obtain ⟨hkind, hkinds⟩ := hkinds
      obtain rfl : kind = kind' := hkind
      obtain ⟨value, v, rfl⟩ : ∃ value rest, v = value :: rest :=
        List.exists_cons_of_length_eq_add_one (length_of_tupleKey h)
      obtain ⟨component, rest, hcomponent, hrest, rfl⟩ := tupleKey_cons_eq_some.mp h
      obtain ⟨component', hcomponent'⟩ :=
        ScalarKeyType.exists_encode_direction hcomponent direction'
      obtain ⟨rest', hrest'⟩ := ih hkinds hrest
      exact ⟨_, tupleKey_cons_eq_some.mpr ⟨component', rest', hcomponent', hrest', rfl⟩⟩

/-! ## Fields by position -/

/-- Fields that read the columns of a tuple in turn read the tuple. -/
theorem fieldValues_of_columns {fields : List ScalarIndexField} {values : List RowValue}
    (h : fields.map ScalarIndexField.column = List.range values.length) :
    fieldValues fields values = values := by
  calc fieldValues fields values
      = (fields.map ScalarIndexField.column).map fun column => values.getD column .null := by
        rw [List.map_map]
        rfl
    _ = (List.range values.length).map fun column => values.getD column .null := by rw [h]
    _ = values := by
        refine List.ext_getElem (by simp) fun i hi hi' => ?_
        rw [List.getElem_map, List.getElem_range, List.getD_eq_getElem?_getD,
          List.getElem?_eq_getElem hi', Option.getD_some]

/-- The column types of a relationship key, without declared lengths. -/
def keyKinds (kinds : List ScalarKeyType) : List (ScalarKeyType × IndexDirection) :=
  kinds.map fun kind => (kind.widen, .ascending)

theorem keyKinds_of_compatible {parents children : List ScalarKeyType}
    (h : List.Forall₂ (fun parent child => compatible parent child = true) parents children) :
    keyKinds parents = keyKinds children := by
  induction h with
  | nil => rfl
  | cons hfirst _ ih =>
    rw [keyKinds, keyKinds, List.map_cons, List.map_cons, widen_of_compatible hfirst]
    exact congrArg _ ih

namespace Key

/-- What a relationship key is made of. -/
structure OfTuple (kinds : List ScalarKeyType) (values : List RowValue) (key : Option Key) :
    Prop where
  encodes : ∃ full, tupleKey (keyKinds kinds) values = some full ∧
    ∀ k, key = some k → k.bytes = Binary.shorten full
  none_iff : key = none ↔ (nullFields (keyKinds kinds) values).all id = true
  nonempty : nullFields (keyKinds kinds) values ≠ []
  hasNull : ∀ k, key = some k → k.entry.hasNull = (nullFields (keyKinds kinds) values).any id

theorem fieldKinds_fields (kinds : List ScalarKeyType) (start : ℕ) :
    fieldKinds (fields kinds start) = kinds.map fun kind => (kind, .ascending) := by
  rw [fieldKinds, fields, List.map_map]
  induction kinds generalizing start with
  | nil => rfl
  | cons kind kinds ih =>
    rw [List.zipIdx_cons, List.map_cons, List.map_cons, ih]
    rfl

theorem nullFields_map {f : ScalarKeyType → ScalarKeyType}
    (hf : ∀ kind value, (f kind).isNull value = kind.isNull value) (direction : IndexDirection)
    (kinds : List ScalarKeyType) (values : List RowValue) :
    nullFields (kinds.map fun kind => (f kind, direction)) values =
      (kinds.zip values).map fun entry => entry.1.isNull entry.2 := by
  induction kinds generalizing values with
  | nil => rfl
  | cons kind kinds ih =>
    cases values with
    | nil => rfl
    | cons value values =>
      show (f kind).isNull value ::
        nullFields (kinds.map fun kind => (f kind, direction)) values = _
      rw [ih, hf]
      rfl

theorem nullFields_keyKinds (kinds : List ScalarKeyType) (values : List RowValue) :
    nullFields (keyKinds kinds) values =
      (kinds.zip values).map fun entry => entry.1.isNull entry.2 :=
  nullFields_map ScalarKeyType.isNull_widen .ascending kinds values

/-- A key is made of one to ten fields, and of a tuple each field encodes. -/
theorem tuple_of_encode {kinds : List ScalarKeyType} {values : List RowValue} {key : Option Key}
    (h : encode kinds values = .ok key) : (1 ≤ kinds.length ∧ kinds.length ≤ maxFields) ∧
      ∃ full, tupleKey (kinds.map fun kind => (kind, .ascending)) values = some full := by
  simp only [encode, ScalarIndexEntry.encode, bind_ok_iff, exists_unit, refuseIf_ok_iff,
    mapError_ok_iff, not_or, not_not, ne_eq] at h
  obtain ⟨⟨hlength, hcount⟩, entry, ⟨-, -, state, hfold, -⟩, -⟩ := h
  obtain ⟨-, full, hfull, -⟩ := foldlM_encodeField_ok_iff.mp hfold
  refine ⟨hcount, full, ?_⟩
  have hvalues : fieldValues (fields kinds 0) values = values := by
    refine fieldValues_of_columns ?_
    rw [fields, List.map_map, ← hlength, List.range_eq_range']
    exact List.zipIdx_map_snd 0 kinds
  rw [← fieldKinds_fields kinds 0]
  change tupleKey (fieldKinds (fields kinds 0)) (fieldValues (fields kinds 0) values) = some full
    at hfull
  rwa [hvalues] at hfull

/-- A key is the shortened key of its tuple; a tuple of nulls has none. -/
theorem ofTuple_of_encode {kinds : List ScalarKeyType} {values : List RowValue} {key : Option Key}
    (h : encode kinds values = .ok key) : OfTuple kinds values key := by
  simp only [encode, ScalarIndexEntry.encode, bind_ok_iff, exists_unit, refuseIf_ok_iff,
    mapError_ok_iff, okOr_ok_iff, not_or, not_not, ne_eq] at h
  obtain ⟨⟨hlength, hpositive, -⟩, entry, ⟨-, -, state, hfold, -, hentry⟩, result, rfl, hkey⟩ := h
  obtain ⟨-, full, hfull, rfl⟩ := foldlM_encodeField_ok_iff.mp hfold
  have hvalues : fieldValues (fields kinds 0) values = values := by
    refine fieldValues_of_columns ?_
    rw [fields, List.map_map, ← hlength, List.range_eq_range']
    exact List.zipIdx_map_snd 0 kinds
  change tupleKey (fieldKinds (fields kinds 0)) (fieldValues (fields kinds 0) values) = some full
    at hfull
  rw [hvalues, fieldKinds_fields] at hfull
  -- the declared lengths are checked by the encoder and not part of the key
  have hwide : tupleKey (keyKinds kinds) values = some full := by
    have hwiden := tupleKey_widen hfull
    rwa [widenKinds, List.map_map] at hwiden
  have hnull : nullFields (keyKinds kinds) values =
      nullFields (fieldKinds (fields kinds 0)) (fieldValues (fields kinds 0) values) := by
    rw [hvalues, fieldKinds_fields, nullFields_keyKinds]
    exact (nullFields_map (f := id) (fun _ _ => rfl) .ascending kinds values).symm
  have hnonempty : nullFields (keyKinds kinds) values ≠ [] := by
    intro hnil
    have hzero := congrArg List.length hnil
    rw [nullFields_keyKinds, List.length_map, List.length_zip, ← hlength, Nat.min_self] at hzero
    exact absurd hzero (Nat.pos_iff_ne_zero.mp hpositive)
  have hall : (nullFields (keyKinds kinds) values).all id =
      (kinds.zip values).all fun entry => entry.1.isNull entry.2 := by
    rw [nullFields_keyKinds, List.all_map]
    rfl
  split at hkey
  -- a tuple of nulls has no key, any other has that of its fields
  next hnulls =>
    replace hnulls := hall.trans hnulls
    cases hkey
    exact ⟨⟨full, hwide, fun k hk => (by cases hk)⟩, ⟨fun _ => hnulls, fun _ => rfl⟩, hnonempty,
      fun k hk => (by cases hk)⟩
  next hnulls =>
    replace hnulls : ¬(nullFields (keyKinds kinds) values).all id = true := by
      rw [hall]
      exact hnulls
    cases hkey
    have hresult : result =
        { key := Binary.shorten ([] ++ full), locator := { page := 0, slot := 0 }
          hasNull := false || (nullFields (keyKinds kinds) values).any id } := by
      rw [hnull]
      split at hentry
      · cases hentry
      · exact (Option.some.inj (pure_ok_iff.mp hentry)).symm
    refine ⟨⟨full, hwide, fun k hk => ?_⟩, ⟨fun hk => (by cases hk), fun hk => absurd hk hnulls⟩,
      hnonempty, fun k hk => ?_⟩
    · cases hk
      rw [bytes, hresult, List.nil_append]
    · cases hk
      rw [hresult, Bool.false_or]

/-- The keys of some tuples; a tuple of nulls has none. -/
def encodeAll (kinds : List ScalarKeyType) (tuples : List (List RowValue)) :
    Except WriteError (List Key) := do
  let keys ← tuples.mapM (encode kinds)
  return keys.reduceOption

/-- The key of a tuple that is accepted. -/
def keyOf (kinds : List ScalarKeyType) (values : List RowValue) : Option Key :=
  match encode kinds values with
  | .ok key => key
  | .error _ => none

/-- Keys of a list of tuples, one for each that has a key. -/
theorem encodeAll_ok {kinds : List ScalarKeyType} {tuples : List (List RowValue)} {keys : List Key}
    (h : encodeAll kinds tuples = .ok keys) :
    (∀ values ∈ tuples, encode kinds values = .ok (keyOf kinds values)) ∧
      keys = tuples.filterMap (keyOf kinds) := by
  simp only [encodeAll, bind_ok_iff, pure_ok_iff] at h
  obtain ⟨options, hoptions, rfl⟩ := h
  have hencode : ∀ values ∈ tuples, encode kinds values = .ok (keyOf kinds values) := by
    intro values hvalues
    obtain ⟨key, hkey⟩ := exists_mapM_ok_iff.mp ⟨options, hoptions⟩ values hvalues
    rw [keyOf, hkey]
  refine ⟨hencode, ?_⟩
  have hmap := mapM_eq_ok_map hencode
  rw [hoptions] at hmap
  rw [Except.ok.inj hmap]
  show List.filterMap id (tuples.map (keyOf kinds)) = tuples.filterMap (keyOf kinds)
  rw [List.filterMap_map]
  rfl

/-- Tuples of which no two are conflated. -/
def Told (kinds : List (ScalarKeyType × IndexDirection)) (tuples : List (List RowValue)) : Prop :=
  ∀ v ∈ tuples, ∀ w ∈ tuples, ¬Conflate kinds v w

/-- Tuples of which no two collide. -/
def Apart (kinds : List (ScalarKeyType × IndexDirection)) (tuples : List (List RowValue)) : Prop :=
  ∀ v ∈ tuples, ∀ w ∈ tuples, ¬Collide kinds v w

/-- Tuples that are apart are told apart by their keys. -/
theorem Apart.told {kinds : List (ScalarKeyType × IndexDirection)} {tuples : List (List RowValue)}
    (h : Apart kinds tuples) : Told kinds tuples :=
  fun v hv w hw hconflate => h v hv w hw hconflate.collide

theorem Apart.tail {kinds : List (ScalarKeyType × IndexDirection)} {tuples : List (List RowValue)}
    {child : List RowValue} (h : Apart kinds (child :: tuples)) : Apart kinds tuples :=
  fun v hv w hw => h v (List.mem_cons_of_mem _ hv) w (List.mem_cons_of_mem _ hw)

/-- Tuples whose keys are stored whole are apart. -/
theorem apart_of_length_le {kinds : List (ScalarKeyType × IndexDirection)}
    {tuples : List (List RowValue)}
    (h : ∀ v ∈ tuples, ∀ a, tupleKey kinds v = some a → a.length ≤ maxKeyBytes) :
    Apart kinds tuples := by
  rintro v hv w hw ⟨a, b, ha, hb, hcollide⟩
  exact not_collide_of_length_le ha hb (h v hv a ha) (h w hw b hb) ⟨a, b, ha, hb, hcollide⟩

section Checks

variable {kinds : List ScalarKeyType} {tuples : List (List RowValue)} {child : List RowValue}
  {keys sorted : List Key} {key : Key}

/-- A tuple equal to one with a key, or conflated with it, has a key. -/
theorem exists_keyOf {v w : List RowValue} {k : Option Key} (hkinds : kinds.length ≤ maxFields)
    (hv : OfTuple kinds v k) (hw : OfTuple kinds w (some key))
    (h : SameTuple (keyKinds kinds) v w ∨ Conflate (keyKinds kinds) v w) :
    ∃ found, k = some found := by
  obtain ⟨a, ha, -⟩ := hv.encodes
  obtain ⟨b, hb, -⟩ := hw.encodes
  rw [← Option.ne_none_iff_exists', ne_eq, hv.none_iff, Bool.not_eq_true]
  rcases h with hsame | hconflate
  · rw [nullFields_of_same ha hb hsame, ← Bool.not_eq_true, ← hw.none_iff]
    exact Option.some_ne_none key
  · exact nullFields_of_conflate (by rwa [keyKinds, List.length_map]) hconflate

/-- What is found are the tuples equal to the one looked up, and those conflated with it. -/
theorem contains_iff (hkeys : encodeAll kinds tuples = .ok keys) (hkinds : kinds.length ≤ maxFields)
    (hkey : OfTuple kinds child (some key)) (hperm : sorted.Perm keys)
    (hsorted : sorted.Pairwise fun left right => left.bytes ≤ right.bytes) :
    contains sorted key = true ↔ ∃ values ∈ tuples,
      SameTuple (keyKinds kinds) values child ∨ Conflate (keyKinds kinds) values child := by
  obtain ⟨hencode, rfl⟩ := encodeAll_ok hkeys
  obtain ⟨b, hb, hchild⟩ := hkey.encodes
  rw [contains_sorted_iff hsorted]
  constructor
  · rintro ⟨found, hmem, hbytes⟩
    obtain ⟨values, hvalues, hfound⟩ := List.mem_filterMap.mp (hperm.mem_iff.mp hmem)
    obtain ⟨a, ha, hparent⟩ := (ofTuple_of_encode (hencode values hvalues)).encodes
    refine ⟨values, hvalues, ?_⟩
    rw [← shorten_eq_iff ha hb, ← hparent found hfound, ← hchild key rfl, hbytes]
  · rintro ⟨values, hvalues, hsame⟩
    have htuple := ofTuple_of_encode (hencode values hvalues)
    obtain ⟨a, ha, hparent⟩ := htuple.encodes
    obtain ⟨found, hfound⟩ := exists_keyOf hkinds htuple hkey hsame
    refine ⟨found, hperm.mem_iff.mpr (List.mem_filterMap.mpr ⟨values, hvalues, hfound⟩), ?_⟩
    rw [hparent found hfound, hchild key rfl]
    exact (shorten_eq_iff ha hb).mpr hsame

/-- A tuple without a null field. -/
def NullFree (kinds : List ScalarKeyType) (values : List RowValue) : Prop :=
  (nullFields (keyKinds kinds) values).any id = false

/-- Neighbours decide the uniqueness of a sorted list, where equal keys have nulls alike. -/
theorem unique_sorted_iff
    (hsorted : sorted.Pairwise fun left right => left.bytes ≤ right.bytes)
    (hnull : ∀ a ∈ sorted, ∀ b ∈ sorted, a.bytes = b.bytes → a.entry.hasNull = b.entry.hasNull) :
    unique sorted = true ↔ sorted.Pairwise fun a b =>
      ¬(a.entry.hasNull = false ∧ b.entry.hasNull = false ∧ a.bytes = b.bytes) := by
  induction sorted with
  | nil => simp [unique]
  | cons a rest ih =>
    rw [List.pairwise_cons] at hsorted ⊢
    have hrest := ih hsorted.2 fun x hx y hy => hnull x (List.mem_cons_of_mem _ hx) y
      (List.mem_cons_of_mem _ hy)
    cases rest with
    | nil => simp [unique]
    | cons b rest =>
      rw [unique, Bool.and_eq_true, hrest]
      refine and_congr_left fun _ => ?_
      simp only [Bool.not_eq_true', Bool.and_eq_false_iff, Bool.not_eq_false', beq_eq_false_iff_ne]
      constructor
      · rintro h c hc ⟨ha, -, hbytes⟩
        -- the keys between two equal ones are equal to them
        have hab : a.bytes = b.bytes := by
          rcases List.mem_cons.mp hc with rfl | hc
          · exact hbytes
          · have hle := List.rel_of_pairwise_cons hsorted.2 hc
            exact le_antisymm (hsorted.1 b List.mem_cons_self) (hbytes ▸ hle)
        rcases h with h | h
        · rw [ha] at h
          cases h
        · exact h hab
      · intro h
        by_contra hnot
        rw [not_or, Bool.not_eq_true, not_not] at hnot
        have hb := hnull a List.mem_cons_self b (List.mem_cons_of_mem _ List.mem_cons_self) hnot.2
        exact h b List.mem_cons_self ⟨hnot.1, hb ▸ hnot.1, hnot.2⟩

/-- Where no tuples are conflated, uniqueness fails exactly where two without nulls are equal. -/
theorem unique_iff (hkeys : encodeAll kinds tuples = .ok keys) (hperm : sorted.Perm keys)
    (hsorted : sorted.Pairwise fun left right => left.bytes ≤ right.bytes)
    (htold : Told (keyKinds kinds) tuples) :
    unique sorted = true ↔ tuples.Pairwise fun v w =>
      ¬(NullFree kinds v ∧ NullFree kinds w ∧ SameTuple (keyKinds kinds) v w) := by
  obtain ⟨hencode, rfl⟩ := encodeAll_ok hkeys
  have htuple : ∀ v ∈ tuples, OfTuple kinds v (keyOf kinds v) :=
    fun v hv => ofTuple_of_encode (hencode v hv)
  -- keys are equal where their tuples are
  have hbytes : ∀ v ∈ tuples, ∀ w ∈ tuples, ∀ a b, keyOf kinds v = some a → keyOf kinds w = some b →
      (a.bytes = b.bytes ↔ SameTuple (keyKinds kinds) v w) := by
    intro v hv w hw a b ha hb
    obtain ⟨full, hfull, hshort⟩ := (htuple v hv).encodes
    obtain ⟨full', hfull', hshort'⟩ := (htuple w hw).encodes
    rw [hshort a ha, hshort' b hb, shorten_eq_iff hfull hfull', or_iff_left (htold v hv w hw)]
  have hnull : ∀ a ∈ sorted, ∀ b ∈ sorted,
      a.bytes = b.bytes → a.entry.hasNull = b.entry.hasNull := by
    intro a ha b hb heq
    obtain ⟨v, hv, hva⟩ := List.mem_filterMap.mp (hperm.mem_iff.mp ha)
    obtain ⟨w, hw, hwb⟩ := List.mem_filterMap.mp (hperm.mem_iff.mp hb)
    obtain ⟨full, hfull, -⟩ := (htuple v hv).encodes
    obtain ⟨full', hfull', -⟩ := (htuple w hw).encodes
    rw [(htuple v hv).hasNull a hva, (htuple w hw).hasNull b hwb,
      nullFields_of_same hfull hfull' ((hbytes v hv w hw a b hva hwb).mp heq)]
  -- a tuple without nulls has a key
  have hfound : ∀ v ∈ tuples, NullFree kinds v →
      ∃ a, keyOf kinds v = some a ∧ a.entry.hasNull = false := by
    intro v hv hfree
    rcases hkey : keyOf kinds v with _ | a
    · obtain ⟨first, rest, hnulls⟩ := List.exists_cons_of_ne_nil (htuple v hv).nonempty
      have hall := (htuple v hv).none_iff.mp hkey
      rw [NullFree, hnulls, List.any_cons, Bool.or_eq_false_iff] at hfree
      rw [hnulls, List.all_cons, Bool.and_eq_true, hfree.1] at hall
      cases hall.1
    · exact ⟨a, rfl, by rw [(htuple v hv).hasNull a hkey]; exact hfree⟩
  rw [unique_sorted_iff hsorted hnull, hperm.pairwise_iff, List.pairwise_filterMap]
  · constructor
    · refine fun h => h.imp_of_mem fun {v w} hv hw hpair hsame => ?_
      obtain ⟨a, ha, hanull⟩ := hfound v hv hsame.1
      obtain ⟨b, hb, hbnull⟩ := hfound w hw hsame.2.1
      exact hpair a ha b hb ⟨hanull, hbnull, (hbytes v hv w hw a b ha hb).mpr hsame.2.2⟩
    · refine fun h => h.imp_of_mem fun {v w} hv hw hpair a ha b hb hequal => hpair ?_
      refine ⟨?_, ?_, (hbytes v hv w hw a b ha hb).mp hequal.2.2⟩
      · rw [NullFree, ← (htuple v hv).hasNull a ha, hequal.1]
      · rw [NullFree, ← (htuple w hw).hasNull b hb, hequal.2.1]
  · rintro a b h ⟨hb, ha, heq⟩
    exact h ⟨ha, hb, heq.symm⟩

end Checks

end Key

/-! ## The index of a new table -/

namespace InitialScalarIndex

variable {fields : List ScalarIndexField} {isUnique : Bool} {policy : IndexNullPolicy}
  {rows : List (List RowValue × RowLocator)} {index : InitialScalarIndex}

/-- The entries of an index are those of its rows, in the order of their records. -/
structure Built (fields : List ScalarIndexField) (policy : IndexNullPolicy)
    (rows : List (List RowValue × RowLocator)) (index : InitialScalarIndex) : Prop where
  fields_eq : index.fields = fields
  accepted : ∀ row ∈ rows, ∃ entry, ScalarIndexEntry.encode fields row.1 policy row.2 = .ok entry
  mem_entries : ∀ entry, entry ∈ index.entries ↔
    ∃ row ∈ rows, ScalarIndexEntry.encode fields row.1 policy row.2 = .ok (some entry)

/-- One more row is indexed. -/
theorem push_built {done : List (List RowValue × RowLocator)} {row : List RowValue × RowLocator}
    {index' : InitialScalarIndex} (hpolicy : index.nullPolicy = policy)
    (hbuilt : Built fields policy done index) (h : index.push row = .ok index') :
    index'.nullPolicy = policy ∧ Built fields policy (done ++ [row]) index' := by
  simp only [push, bind_ok_iff, mapError_ok_iff, pure_ok_iff] at h
  obtain ⟨entry, hentry, rfl⟩ := h
  rw [hbuilt.fields_eq, hpolicy] at hentry
  refine ⟨hpolicy, hbuilt.fields_eq, fun other hother => ?_, fun found => ?_⟩
  · rcases List.mem_append.mp hother with hold | hnew
    · exact hbuilt.accepted other hold
    · rw [List.mem_singleton.mp hnew]
      exact ⟨entry, hentry⟩
  · rw [List.mem_append, hbuilt.mem_entries, Option.mem_toList]
    constructor
    · rintro (⟨other, hother, hfound⟩ | hfound)
      · exact ⟨other, List.mem_append_left _ hother, hfound⟩
      · exact ⟨row, List.mem_append_right _ (List.mem_singleton_self _), hfound ▸ hentry⟩
    · rintro ⟨other, hother, hfound⟩
      rcases List.mem_append.mp hother with hold | hnew
      · exact .inl ⟨other, hold, hfound⟩
      · rw [List.mem_singleton.mp hnew, hentry] at hfound
        exact .inr (Except.ok.inj hfound)

/-- An index that was built holds an entry for each row, in order. -/
theorem build_ok (h : build fields isUnique policy rows = .ok index) :
    Built fields policy rows index ∧ index.entries.Pairwise fun a b => a.record ≤ b.record := by
  simp only [build, forIndex, sort, bind_ok_iff, exists_unit, refuseIf_ok_iff, pure_ok_iff] at h
  obtain ⟨_, ⟨-, -, rfl⟩, pushed, hpushed, distinct, -, rfl⟩ := h
  have hrun := foldlM_ok_induction
    (motive := fun done state => state.nullPolicy = policy ∧ Built fields policy done state)
    ⟨rfl, rfl, by simp, by simp⟩
    (fun done row rest state state' _ hstate hstep => push_built hstate.1 hstate.2 hstep) hpushed
  have htotal : Std.Total fun a b : ScalarIndexEntry => a.record ≤ b.record :=
    ⟨fun a b => le_total a.record b.record⟩
  have htrans : IsTrans ScalarIndexEntry fun a b => a.record ≤ b.record := ⟨fun _ _ _ => le_trans⟩
  refine ⟨⟨hrun.2.fields_eq, hrun.2.accepted, fun entry => ?_⟩, List.pairwise_insertionSort _ _⟩
  rw [List.mem_insertionSort]
  exact hrun.2.mem_entries entry

/-- The key of an entry is the shortened key of its tuple; only a tuple of nulls may have none. -/
theorem encode_tuple {values : List RowValue} {locator : RowLocator}
    {entry : Option ScalarIndexEntry}
    (h : ScalarIndexEntry.encode fields values policy locator = .ok entry) :
    ∃ full, tupleKey (widenKinds (fieldKinds fields)) (fieldValues fields values) = some full ∧
      (∀ found, entry = some found → found.key = Binary.shorten full) ∧
      (entry = none →
        (nullFields (fieldKinds fields) (fieldValues fields values)).all id = true) := by
  simp only [ScalarIndexEntry.encode, bind_ok_iff, exists_unit, refuseIf_ok_iff] at h
  obtain ⟨-, -, state, hfold, -, hentry⟩ := h
  obtain ⟨-, full, hfull, rfl⟩ := foldlM_encodeField_ok_iff.mp hfold
  refine ⟨full, tupleKey_widen hfull, ?_⟩
  split at hentry
  next hnull =>
    cases hentry
    refine ⟨fun found hfound => (by cases hfound), fun _ => ?_⟩
    have hall := hnull.1
    dsimp only at hall
    rwa [Bool.true_and] at hall
  next =>
    cases hentry
    refine ⟨fun found hfound => ?_, fun hnone => (by cases hnone)⟩
    cases hfound
    rw [List.nil_append]

/-- The fields of an index, without declared lengths. -/
def indexKinds (fields : List ScalarIndexField) : List (ScalarKeyType × IndexDirection) :=
  widenKinds (fieldKinds fields)

/-- The tuples of some rows. -/
def rowTuples (fields : List ScalarIndexField) (rows : List (List RowValue × RowLocator)) :
    List (List RowValue) :=
  rows.map fun row => fieldValues fields row.1

/-- Where no tuples collide, the records of an index order its keys. -/
theorem entries_sorted (hbuilt : Built fields policy rows index)
    (hrecords : index.entries.Pairwise fun a b => a.record ≤ b.record)
    (hapart : Key.Apart (indexKinds fields) (rowTuples fields rows)) :
    index.entries.Pairwise fun a b => a.key ≤ b.key := by
  refine hrecords.imp_of_mem fun {a b} ha hb hle => ?_
  obtain ⟨row, hrow, hencode⟩ := (hbuilt.mem_entries a).mp ha
  obtain ⟨row', hrow', hencode'⟩ := (hbuilt.mem_entries b).mp hb
  obtain ⟨full, hfull, hkey, -⟩ := encode_tuple hencode
  obtain ⟨full', hfull', hkey', -⟩ := encode_tuple hencode'
  rw [hkey a rfl, hkey' b rfl]
  by_cases hsame : full = full'
  · rw [hsame]
  · have hclear := hapart _ (List.mem_map_of_mem hrow) _ (List.mem_map_of_mem hrow')
    by_contra hnot
    have hlt : Binary.shorten full' < Binary.shorten full := not_le.mp hnot
    -- keys apart are no prefix of each other, so records are ordered as their keys
    have hstarts : ¬Binary.shorten full' <+: Binary.shorten full :=
      fun hstarts => hclear ⟨full, full', hfull, hfull', hsame, .inr hstarts⟩
    have hrecord : b.record < a.record := by
      rw [ScalarIndexEntry.record, ScalarIndexEntry.record, hkey a rfl, hkey' b rfl]
      exact append_lt_append hlt hstarts _ _
    exact absurd hle (not_le.mpr hrecord)

/-- A search in a sorted index finds the keys it has. -/
theorem holds_iff {key : List UInt8} (h : index.entries.Pairwise fun a b => a.key ≤ b.key) :
    index.holds key = true ↔ ∃ entry ∈ index.entries, entry.key = key := by
  have hordered : index.entries.Pairwise fun a b =>
      (compareBytes a.key key = .gt → compareBytes b.key key = .gt) ∧
      (compareBytes b.key key = .lt → compareBytes a.key key = .lt) := by
    refine h.imp fun {a b} hle => ⟨fun ha => ?_, fun hb => ?_⟩
    · exact compareBytes_gt_iff.mpr ((compareBytes_gt_iff.mp ha).trans_le hle)
    · exact compareBytes_lt_iff.mpr (hle.trans_lt (compareBytes_lt_iff.mp hb))
  have hfound := Search.isOk_binarySearchBy_iff hordered
  simp only [compareBytes_eq_iff] at hfound
  rw [← hfound]
  unfold holds
  split
  · rename_i i hi
    simp [hi]
  · rename_i i hi
    simp [hi]

/-- The key of a tuple that is not all null is held exactly where a row has the tuple. -/
theorem holds_tuple_iff {child : List RowValue} {full : List UInt8}
    (hbuilt : Built fields policy rows index)
    (hrecords : index.entries.Pairwise fun a b => a.record ≤ b.record)
    (hfull : tupleKey (indexKinds fields) child = some full)
    (hnull : (nullFields (indexKinds fields) child).all id = false)
    (hapart : Key.Apart (indexKinds fields) (child :: rowTuples fields rows)) :
    index.holds (Binary.shorten full) = true ↔
      ∃ values ∈ rowTuples fields rows, SameTuple (indexKinds fields) values child := by
  rw [holds_iff (entries_sorted hbuilt hrecords hapart.tail)]
  constructor
  · rintro ⟨entry, hentry, hkey⟩
    obtain ⟨row, hrow, hencode⟩ := (hbuilt.mem_entries entry).mp hentry
    obtain ⟨full', hfull', hkey', -⟩ := encode_tuple hencode
    have hmem : fieldValues fields row.1 ∈ rowTuples fields rows := List.mem_map_of_mem hrow
    have hequal : Binary.shorten full' = Binary.shorten full := by rw [← hkey' entry rfl, hkey]
    refine ⟨_, hmem, ((shorten_eq_iff hfull' hfull).mp hequal).resolve_right ?_⟩
    exact hapart.told _ (List.mem_cons_of_mem _ hmem) _ List.mem_cons_self
  · rintro ⟨values, hvalues, hsame⟩
    obtain ⟨row, hrow, rfl⟩ := List.mem_map.mp hvalues
    obtain ⟨entry, hencode⟩ := hbuilt.accepted row hrow
    obtain ⟨full', hfull', hkey', hnone⟩ := encode_tuple hencode
    rcases entry with _ | entry
    · -- only a tuple of nulls is left out
      have hall := hnone rfl
      have hnulls : nullFields (indexKinds fields) (fieldValues fields row.1) =
          nullFields (indexKinds fields) child := nullFields_of_same hfull' hfull hsame
      rw [← nullFields_widen, ← indexKinds, hnulls, hnull] at hall
      cases hall
    · refine ⟨entry, (hbuilt.mem_entries entry).mpr ⟨row, hrow, hencode⟩, ?_⟩
      rw [hkey' entry rfl, (tupleKey_prefixFree hfull' hfull).2.mpr hsame]

/-- The column types looked up, in the directions of an index. -/
def lookupKinds (fields : List ScalarIndexField) (kinds : List ScalarKeyType) :
    List (ScalarKeyType × IndexDirection) :=
  (fields.zip kinds).map fun entry => (entry.2, entry.1.direction)

/-- The fields of a lookup read the tuple in turn. -/
theorem lookupFields_eq {kinds : List ScalarKeyType} {values : List RowValue}
    (hlength : kinds.length = fields.length) (hvalues : values.length = fields.length) :
    fieldKinds (lookupFields fields kinds) = lookupKinds fields kinds ∧
      fieldValues (lookupFields fields kinds) values = values ∧
      (lookupFields fields kinds).length = fields.length ∧
      ∀ field ∈ lookupFields fields kinds, field.column < values.length := by
  have hzip : (fields.zip kinds).length = values.length := by
    rw [List.length_zip, hlength, Nat.min_self, hvalues]
  -- the looked up fields number the values from zero
  have hcolumns : (lookupFields fields kinds).map ScalarIndexField.column =
      List.range values.length := by
    rw [lookupFields, List.map_map, ← hzip, List.range_eq_range']
    exact List.zipIdx_map_snd 0 _
  refine ⟨?_, fieldValues_of_columns hcolumns, ?_, fun field hfield => ?_⟩
  · calc fieldKinds (lookupFields fields kinds)
        = ((fields.zip kinds).zipIdx.map Prod.fst).map
            fun entry => (entry.2, entry.1.direction) := by
          rw [fieldKinds, lookupFields, List.map_map, List.map_map]
          rfl
      _ = lookupKinds fields kinds := by
          rw [List.zipIdx_map_fst]
          rfl
  · rw [lookupFields, List.length_map, List.length_zipIdx, hzip, hvalues]
  · have hmem : field.column ∈ (lookupFields fields kinds).map ScalarIndexField.column :=
      List.mem_map_of_mem hfield
    rw [hcolumns] at hmem
    exact List.mem_range.mp hmem

/-- A lookup searches for the shortened key of the tuple. -/
theorem containsKey_eq {kinds : List ScalarKeyType} {values : List RowValue} {full : List UInt8}
    (hfields : index.fields = fields)
    (hcompatible : List.Forall₂ (fun field kind => compatible field.kind kind = true) fields kinds)
    (hlength : 1 ≤ kinds.length ∧ kinds.length ≤ maxFields)
    (hfull : tupleKey (lookupKinds fields kinds) values = some full) :
    index.containsKey kinds values = .ok (index.holds (Binary.shorten full)) := by
  subst hfields
  have hkinds : kinds.length = index.fields.length := hcompatible.length_eq.symm
  have hvalues : values.length = index.fields.length := by
    rw [length_of_tupleKey hfull, lookupKinds, List.length_map, List.length_zip, hkinds,
      Nat.min_self]
  have hlengths : ¬(kinds.length ≠ index.fields.length ∨ values.length ≠ index.fields.length) := by
    rw [not_or, not_not, not_not]
    exact ⟨hkinds, hvalues⟩
  unfold containsKey
  rw [refuseIf, if_neg hlengths]
  split
  next kind value =>
    -- one field is looked up by its own component
    obtain ⟨field, hfield⟩ := List.length_eq_one_iff.mp hkinds.symm
    rw [hfield] at hcompatible hfull
    obtain ⟨component, rest, hcomponent, hrest, rfl⟩ := tupleKey_cons_eq_some.mp hfull
    cases hrest
    rw [List.append_nil]
    show index.containsSingleKey kind value = _
    have hfirst : compatible field.kind kind = true := (List.forall₂_cons.mp hcompatible).1
    simp only [containsSingleKey, hfield, hcomponent]
    rw [refuseIf, if_neg (by rw [hfirst]; decide)]
    rfl
  next =>
    -- several are encoded as an entry
    obtain ⟨hlookupKinds, hlookupValues, hlookupLength, hcolumns⟩ := lookupFields_eq hkinds hvalues
    have hchecks : (forM (index.fields.zip kinds) fun entry =>
        refuseIf (compatible entry.1.kind entry.2 = false)
          InitialIndexError.unsupportedInitialIndexSchema) = .ok ⟨⟩ := by
      rw [forM_ok_iff]
      rintro ⟨field, kind⟩ hmem
      rw [refuseIf_ok_iff, Bool.not_eq_false]
      exact List.forall₂_iff_zip.mp hcompatible |>.2 hmem
    have hencode : ∃ entry, ScalarIndexEntry.encode (lookupFields index.fields kinds) values
        .include { page := 0, slot := 0 } = .ok (some entry) ∧
          entry.key = Binary.shorten full := by
      obtain ⟨state, hfold, hkey⟩ : ∃ state : KeyAccumulator,
          (lookupFields index.fields kinds).foldlM (ScalarIndexEntry.encodeField values)
            { key := [], hasNull := false, allNull := true } = .ok state ∧ state.key = full :=
        ⟨_, foldlM_encodeField_ok_iff.mpr
          ⟨hcolumns, full, by rw [hlookupKinds, hlookupValues]; exact hfull, rfl⟩,
          List.nil_append full⟩
      refine ⟨{ key := Binary.shorten state.key, locator := { page := 0, slot := 0 }
                hasNull := state.hasNull }, ?_, by rw [hkey]⟩
      unfold ScalarIndexEntry.encode
      have hcount : ¬¬(1 ≤ (lookupFields index.fields kinds).length ∧
          (lookupFields index.fields kinds).length ≤ maxFields) := by
        rw [hlookupLength, ← hkinds, not_not]
        exact hlength
      rw [refuseIf, if_neg hcount]
      refine bind_ok_iff.mpr ⟨(), rfl, bind_ok_iff.mpr ⟨(), by decide, bind_ok_iff.mpr
        ⟨_, hfold, bind_ok_iff.mpr ⟨(), ?_, ?_⟩⟩⟩⟩
      · exact refuseIf_ok_iff.mpr fun h => (by cases h.2)
      · exact if_neg fun h => (by cases h.2)
    obtain ⟨entry, hentry, hkey⟩ := hencode
    rw [← hkey]
    refine bind_ok_iff.mpr ⟨(), rfl, bind_ok_iff.mpr ⟨⟨⟩, hchecks, ?_⟩⟩
    rw [hentry]
    rfl

/-- Fields of compatible types, without declared lengths. -/
theorem widenKinds_lookupKinds {kinds : List ScalarKeyType}
    (h : List.Forall₂ (fun field kind => compatible field.kind kind = true) fields kinds) :
    widenKinds (lookupKinds fields kinds) = indexKinds fields := by
  induction h with
  | nil => rfl
  | @cons field kind fields kinds hfirst _ ih =>
    show (kind.widen, field.direction) :: widenKinds (lookupKinds fields kinds) =
      (field.kind.widen, field.direction) :: indexKinds fields
    rw [ih, widen_of_compatible hfirst]

theorem lookupKinds_fst {kinds : List ScalarKeyType} (hlength : kinds.length = fields.length) :
    (lookupKinds fields kinds).map Prod.fst = kinds := by
  rw [lookupKinds, List.map_map]
  exact List.map_snd_zip hlength.le

/-- The lookup in an index finds the tuples equal to the one looked up. -/
theorem containsKey_iff {kinds : List ScalarKeyType} {child : List RowValue} {key : Key}
    (hbuild : build fields isUnique policy rows = .ok index)
    (hcompatible : List.Forall₂ (fun field kind => compatible field.kind kind = true) fields kinds)
    (hkey : Key.encode kinds child = .ok (some key))
    (hapart : Key.Apart (indexKinds fields) (child :: rowTuples fields rows)) :
    ∃ found, index.containsKey kinds child = .ok found ∧
      (found = true ↔
        ∃ values ∈ rowTuples fields rows, SameTuple (indexKinds fields) values child) := by
  obtain ⟨hbuilt, hrecords⟩ := build_ok hbuild
  obtain ⟨hcount, ascending, hascending⟩ := Key.tuple_of_encode hkey
  have hfst : (lookupKinds fields kinds).map Prod.fst = kinds :=
    lookupKinds_fst hcompatible.length_eq.symm
  obtain ⟨full, hfull⟩ : ∃ full, tupleKey (lookupKinds fields kinds) child = some full := by
    refine tupleKey_of_kinds ?_ hascending
    rw [hfst, List.map_map]
    exact List.map_id kinds
  refine ⟨_, containsKey_eq hbuilt.fields_eq hcompatible hcount hfull, ?_⟩
  have hwide := tupleKey_widen hfull
  rw [widenKinds_lookupKinds hcompatible] at hwide
  -- a key has a field that is not null
  have hnull : (nullFields (indexKinds fields) child).all id = false := by
    have hnone := (Key.ofTuple_of_encode hkey).none_iff.not.mp (Option.some_ne_none key)
    rw [Bool.not_eq_true] at hnone
    rw [← hnone, ← widenKinds_lookupKinds hcompatible, nullFields_widen]
    have hkinds : nullFields (keyKinds kinds) child =
        nullFields (lookupKinds fields kinds) child := by
      have hnarrow := nullFields_widen (kinds.map fun kind => (kind, .ascending)) child
      rw [widenKinds, List.map_map] at hnarrow
      refine hnarrow.trans (nullFields_of_kinds ?_)
      rw [hfst, List.map_map]
      exact List.map_id kinds
    rw [hkinds]
  exact holds_tuple_iff hbuilt hrecords hwide hnull hapart

end InitialScalarIndex

/-! ## Referential checks -/

namespace Key

/-- Referential checks compare tuples field by field: `contains` finds the tuples equal to the child
and those conflated with it, `unique` finds equal tuples without nulls, and the lookup in the index
of a new table answers as `contains` does. Tuples whose keys are stored whole are apart. -/
theorem relationship_compares_values {parents children : List ScalarKeyType}
    {tuples : List (List RowValue)} {child : List RowValue} {keys sorted : List Key} {key : Key}
    (hcompatible :
      List.Forall₂ (fun parent child => compatible parent child = true) parents children)
    (hkeys : encodeAll parents tuples = .ok keys) (hkey : encode children child = .ok (some key))
    (hperm : sorted.Perm keys)
    (hsorted : sorted.Pairwise fun left right => left.bytes ≤ right.bytes) :
    (contains sorted key = true ↔ ∃ values ∈ tuples,
      SameTuple (keyKinds parents) values child ∨ Conflate (keyKinds parents) values child) ∧
    (Told (keyKinds parents) tuples → (unique sorted = false ↔ ∃ v w, [v, w].Sublist tuples ∧
      NullFree parents v ∧ NullFree parents w ∧ SameTuple (keyKinds parents) v w)) ∧
    (∀ fields isUnique policy rows index, fields.map ScalarIndexField.kind = parents →
      InitialScalarIndex.rowTuples fields rows = tuples →
      InitialScalarIndex.build fields isUnique policy rows = .ok index →
      Told (keyKinds parents) (child :: tuples) →
      Apart (InitialScalarIndex.indexKinds fields) (child :: tuples) →
      index.containsKey children child = .ok (contains sorted key)) ∧
    ∀ kinds, (∀ v ∈ child :: tuples, ∀ a, tupleKey kinds v = some a → a.length ≤ maxKeyBytes) →
      Apart kinds (child :: tuples) := by
  have hsame : keyKinds parents = keyKinds children := keyKinds_of_compatible hcompatible
  have hchild : OfTuple parents child (some key) := by
    have hofTuple := ofTuple_of_encode hkey
    exact ⟨hsame ▸ hofTuple.encodes, hsame ▸ hofTuple.none_iff, hsame ▸ hofTuple.nonempty,
      hsame ▸ hofTuple.hasNull⟩
  have hcount : parents.length ≤ maxFields := by
    rw [hcompatible.length_eq]
    exact (tuple_of_encode hkey).1.2
  have hcontains := contains_iff hkeys hcount hchild hperm hsorted
  refine ⟨hcontains, fun htold => ?_, ?_, fun kinds => apart_of_length_le⟩
  · rw [← Bool.not_eq_true, unique_iff hkeys hperm hsorted htold, List.pairwise_iff_forall_sublist]
    simp only [not_forall, not_not, exists_prop]
  · rintro fields isUnique policy rows index hfields rfl hbuild htold hapart
    have hforall : List.Forall₂ (fun field kind => compatible field.kind kind = true) fields
        children := by
      rw [← hfields, List.forall₂_map_left_iff] at hcompatible
      exact hcompatible
    obtain ⟨found, hfound, hiff⟩ :=
      InitialScalarIndex.containsKey_iff hbuild hforall hkey hapart
    rw [hfound, Except.ok.injEq, Bool.eq_iff_iff, hiff, hcontains]
    -- the directions of the index do not matter to equality
    have hkinds : (InitialScalarIndex.indexKinds fields).map Prod.fst =
        (keyKinds parents).map Prod.fst := by
      rw [InitialScalarIndex.indexKinds, widenKinds, fieldKinds, keyKinds, ← hfields]
      simp only [List.map_map]
      rfl
    constructor
    · rintro ⟨values, hvalues, hequal⟩
      exact ⟨values, hvalues, .inl (sameTuple_of_kinds hkinds hequal)⟩
    · rintro ⟨values, hvalues, hequal | hconflate⟩
      · exact ⟨values, hvalues, sameTuple_of_kinds hkinds.symm hequal⟩
      · exact absurd hconflate
          (htold values (List.mem_cons_of_mem _ hvalues) child List.mem_cons_self)

/-- Columns of different widths, and a tuple with a null. -/
theorem relationship_compares_values_widths :
    ∃ keys key, encodeAll [.binary 4, .long] [[.binary [1, 2], .null], [.binary [7], .long 3]] =
        .ok keys ∧ encode [.binary 9, .long] [.binary [1, 2], .null] = .ok (some key) ∧
      contains (sort keys) key = true := by
  obtain ⟨keys, hkeys⟩ : ∃ keys, encodeAll [.binary 4, .long]
      [[.binary [1, 2], .null], [.binary [7], .long 3]] = .ok keys := ⟨_, rfl⟩
  obtain ⟨key, hkey⟩ : ∃ key, encode [.binary 9, .long] [.binary [1, 2], .null] = .ok (some key) :=
    ⟨_, rfl⟩
  refine ⟨keys, key, hkeys, hkey, ?_⟩
  have hcompatible : List.Forall₂ (fun parent child => compatible parent child = true)
      [.binary 4, .long] [.binary 9, .long] :=
    .cons (by decide) (.cons (by decide) .nil)
  exact (relationship_compares_values hcompatible hkeys hkey
    (List.perm_insertionSort _ keys) (sort_pairwise keys)).1.mpr
      ⟨_, List.mem_cons_self, .inl ⟨rfl, rfl, trivial⟩⟩

/-- Two long values that differ by a multiple of the checksum polynomial have one key. -/
theorem contains_conflated :
    List.replicate 255 (0 : UInt8) ≠ List.replicate 224 0 ++ [1, 0x80, 5] ++ List.replicate 28 0 ∧
    ∃ parent child, encode [.binary 255] [.binary (List.replicate 255 0)] = .ok (some parent) ∧
      encode [.binary 255] [.binary (List.replicate 224 0 ++ [1, 0x80, 5] ++ List.replicate 28 0)] =
        .ok (some child) ∧
      contains [parent] child = true := by
  have hencode : ∀ values : List RowValue,
      (encode [.binary 255] values).toOption.any Option.isSome = true →
        ∃ key, encode [.binary 255] values = .ok (some key) := by
    intro values h
    obtain ⟨key, hkey, hsome⟩ := exists_ok_and h
    obtain ⟨found, rfl⟩ := Option.isSome_iff_exists.mp hsome
    exact ⟨found, hkey⟩
  obtain ⟨parent, hparent⟩ := hencode [.binary (List.replicate 255 0)] (by decide +kernel)
  obtain ⟨child, hchild⟩ := hencode
    [.binary (List.replicate 224 0 ++ [1, 0x80, 5] ++ List.replicate 28 0)] (by decide +kernel)
  -- both are cut, and their checksums collide
  have hequal : (encode [.binary 255] [.binary (List.replicate 255 0)]).map (Option.map bytes) =
      (encode [.binary 255] [.binary (List.replicate 224 0 ++ [1, 0x80, 5] ++
        List.replicate 28 0)]).map (Option.map bytes) := by
    decide +kernel
  rw [hparent, hchild] at hequal
  refine ⟨by decide +kernel, parent, child, hparent, hchild,
    (contains_sorted_iff (List.pairwise_singleton _ _)).mpr ⟨parent, List.mem_singleton_self _, ?_⟩⟩
  exact Option.some.inj (Except.ok.inj hequal)

end Key

end Jet3
