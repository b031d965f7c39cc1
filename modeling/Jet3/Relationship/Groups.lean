import Mathlib.Data.List.Nodup
import Mathlib.Data.List.Perm.Basic
import Jet3.Catalog.NameKey
import Jet3.Write.Error

/-!
# Relationship records

Each row of the relationship catalog is one component of a relationship: a pair of key columns with
their ordinal. Rows of one name form a relationship, whose components are put in the order of their
ordinals.
-/

namespace Jet3

open Outcome

/-- `RelationshipJoin`. -/
inductive RelationshipJoin where
  | inner
  | left
  | right
  | leftAndRight
  deriving DecidableEq, Repr

/-- The join of the two join bits. -/
def RelationshipJoin.fromBits : Bool → Bool → RelationshipJoin
  | false, false => inner
  | true, false => left
  | false, true => right
  | true, true => leftAndRight

namespace RelationshipCatalog

/-- The attributes of a relationship as its catalog records hold them. -/
structure RelationshipFlags where
  updates : Bool
  deletes : Bool
  enforced : Bool
  unique : Bool
  join : RelationshipJoin
  deriving DecidableEq, Repr

namespace RelationshipFlags

/-- A relationship whose child columns are unique. -/
def uniqueBit : Int32 := 1
/-- A relationship that is not enforced. -/
def dontEnforceBit : Int32 := 2
/-- A relationship that hands key changes down. -/
def updateBit : Int32 := 256
/-- A relationship that deletes children. -/
def deleteBit : Int32 := 4096
/-- A relationship that is shown as a left join. -/
def leftBit : Int32 := 0x01000000
/-- A relationship that is shown as a right join. -/
def rightBit : Int32 := 0x02000000

/-- Unknown bits, and cascades on unenforced relationships, are not interpreted. -/
def decode (raw : Int32) : Option RelationshipFlags :=
  if raw &&& ~~~(uniqueBit ||| dontEnforceBit ||| updateBit ||| deleteBit ||| leftBit |||
    rightBit) ≠ 0
  then none
  else if raw &&& dontEnforceBit ≠ 0 ∧ raw &&& (updateBit ||| deleteBit) ≠ 0 then none
  else some
    { updates := raw &&& updateBit ≠ 0
      deletes := raw &&& deleteBit ≠ 0
      enforced := raw &&& dontEnforceBit = 0
      unique := raw &&& uniqueBit ≠ 0
      join := .fromBits (raw &&& leftBit ≠ 0) (raw &&& rightBit ≠ 0) }

/-- The option bytes of the logical indexes of a relationship. -/
def context (flags : RelationshipFlags) : List UInt8 :=
  [if flags.updates then 1 else 0, if flags.deletes then 1 else 0]

end RelationshipFlags

/-- A row of the relationship catalog. The last three fields are its `metadata`. -/
structure Record where
  order : SortOrder
  name : List UInt8
  parent : List UInt8
  child : List UInt8
  parentColumn : List UInt8
  childColumn : List UInt8
  attributes : Int32
  count : Int32
  ordinal : Int32
  deriving DecidableEq, Repr

namespace Record

/-- Unenforced relationships may have more key fields than an index. -/
def interpreted (record : Record) : Option RelationshipFlags := do
  let flags ← RelationshipFlags.decode record.attributes
  if 1 ≤ record.count.toInt ∧ (flags.enforced → record.count.toInt ≤ maxFields) then some flags
  else none

/-- A record is another component of the relationship `first` is one of. -/
def sameName (first record : Record) : Bool :=
  catalogNamesEqual first.name record.name first.order

/-- Components of one relationship have its attributes, its count, and its endpoints. -/
def sameRelationship (first record : Record) : Bool :=
  record.attributes = first.attributes ∧ record.count = first.count ∧
    catalogNamesEqual record.parent first.parent first.order ∧
    catalogNamesEqual record.child first.child first.order

end Record

/-- Whether the first component names the relationship of `record`. -/
def groupHas (record : Record) (group : List Record) : Bool :=
  group.head?.any fun first => first.sameName record

/-- Adds a record to the first group of its name. -/
def addRecord (record : Record) : List (List Record) → List (List Record)
  | [] => [[record]]
  | group :: rest =>
    if groupHas record group then (group ++ [record]) :: rest
    else group :: addRecord record rest

/-- The records, grouped by equal names. -/
def groups (records : List Record) : List (List Record) :=
  records.foldl (fun groups record => addRecord record groups) []

/-- Puts a record into the slot of its ordinal. -/
def placeRecord (first : Record) (slots : List (Option Record)) (record : Record) :
    Except WriteError (List (Option Record)) := do
  refuseIf (first.sameRelationship record = false)
    (.mismatch "relationship component metadata differs")
  refuseIf (record.ordinal.toInt < 0) (.mismatch "relationship component ordinal")
  let slot ← okOr slots[record.ordinal.toInt.toNat]? (.mismatch "relationship component ordinal")
  refuseIf slot.isSome (.mismatch "duplicate relationship component ordinal")
  return slots.set record.ordinal.toInt.toNat (some record)

/-- The components of a relationship in the order of their ordinals. -/
def ordered (group : List Record) : Except WriteError (List Record) := do
  let first ← okOr group.head? (.mismatch "empty relationship catalog group")
  refuseIf (first.count.toInt ≠ group.length) (.mismatch "relationship catalog component count")
  let slots ← group.foldlM (placeRecord first) (List.replicate group.length none)
  slots.mapM fun slot => okOr slot (.mismatch "missing relationship component ordinal")

/-- `enforced`, of the components of a relationship. -/
def enforced (records : List Record) : Bool :=
  records.head?.any fun record => (RelationshipFlags.decode record.attributes).any (·.enforced)

/-! ## Groups -/

/-- A group is never empty, and its first record names the others. -/
def Named (group : List Record) : Prop :=
  ∃ first rest, group = first :: rest ∧ ∀ record ∈ rest, first.sameName record = true

/-- No record of a later group belongs to an earlier one. -/
def Apart (groups : List (List Record)) : Prop :=
  groups.Pairwise fun group later => ∀ record ∈ later, groupHas record group = false

/-- Every record is put into one group. -/
theorem addRecord_perm (record : Record) (groups : List (List Record)) :
    (addRecord record groups).flatten.Perm (record :: groups.flatten) := by
  induction groups with
  | nil => exact .refl _
  | cons group rest ih =>
    rw [addRecord]
    split
    · rw [List.flatten_cons, List.flatten_cons, List.append_assoc, List.singleton_append]
      exact List.perm_middle
    · rw [List.flatten_cons, List.flatten_cons]
      exact (ih.append_left group).trans List.perm_middle

/-- The records of a group have equal names. -/
theorem addRecord_named {record : Record} {groups : List (List Record)}
    (h : ∀ group ∈ groups, Named group) : ∀ group ∈ addRecord record groups, Named group := by
  induction groups with
  | nil =>
    intro group hgroup
    rw [List.mem_singleton.mp hgroup]
    exact ⟨record, [], rfl, by simp⟩
  | cons group rest ih =>
    rw [List.forall_mem_cons] at h
    rw [addRecord]
    split
    · rename_i hhas
      rw [List.forall_mem_cons]
      -- the record joins the group of its name
      refine ⟨?_, h.2⟩
      obtain ⟨first, others, rfl, hothers⟩ := h.1
      refine ⟨first, others ++ [record], rfl, fun other hother => ?_⟩
      rcases List.mem_append.mp hother with hold | hnew
      · exact hothers other hold
      · rw [List.mem_singleton.mp hnew]
        exact hhas
    · rw [List.forall_mem_cons]
      exact ⟨h.1, ih h.2⟩

/-- A record of a group is the new one or was in a group before. -/
theorem mem_addRecord {record other : Record} {groups : List (List Record)} {group : List Record}
    (h : group ∈ addRecord record groups) (hother : other ∈ group) :
    other = record ∨ ∃ old ∈ groups, other ∈ old := by
  have hmem : other ∈ (addRecord record groups).flatten := List.mem_flatten.mpr ⟨group, h, hother⟩
  rw [(addRecord_perm record groups).mem_iff, List.mem_cons, List.mem_flatten] at hmem
  exact hmem

/-- Different groups have different names. -/
theorem addRecord_apart {record : Record} {groups : List (List Record)}
    (hnamed : ∀ group ∈ groups, Named group) (h : Apart groups) :
    Apart (addRecord record groups) := by
  induction groups with
  | nil => exact List.pairwise_singleton _ _
  | cons group rest ih =>
    rw [List.forall_mem_cons] at hnamed
    obtain ⟨hfirst, hrest⟩ := List.pairwise_cons.mp h
    rw [addRecord]
    split
    · refine List.pairwise_cons.mpr ⟨fun later hlater other hother => ?_, hrest⟩
      -- the first record of the group stays the same
      obtain ⟨first, others, rfl, -⟩ := hnamed.1
      exact hfirst later hlater other hother
    · rename_i hhas
      rw [Bool.not_eq_true] at hhas
      refine List.pairwise_cons.mpr ⟨fun later hlater other hother => ?_, ih hnamed.2 hrest⟩
      rcases mem_addRecord hlater hother with rfl | ⟨old, hold, hmem⟩
      · exact hhas
      · exact hfirst old hold other hmem

/-- What the groups are: their records are those of the catalog, each group is named by its first
record, and no record has passed over an earlier group of its name. -/
theorem groups_spec (records : List Record) :
    (groups records).flatten.Perm records ∧ (∀ group ∈ groups records, Named group) ∧
      Apart (groups records) := by
  -- the groups so far hold the records so far, each group those of one name
  have hrun : ∀ (rest done : List Record) (current : List (List Record)),
      current.flatten.Perm done → (∀ group ∈ current, Named group) → Apart current →
      (rest.foldl (fun groups record => addRecord record groups) current).flatten.Perm
        (done ++ rest) ∧
        (∀ group ∈ rest.foldl (fun groups record => addRecord record groups) current, Named group) ∧
        Apart (rest.foldl (fun groups record => addRecord record groups) current) := by
    intro rest
    induction rest with
    | nil =>
      intro done current hperm hnamed hapart
      rw [List.append_nil]
      exact ⟨hperm, hnamed, hapart⟩
    | cons record rest ih =>
      intro done current hperm hnamed hapart
      have hnext := ih (record :: done) (addRecord record current)
        ((addRecord_perm record current).trans (hperm.cons record)) (addRecord_named hnamed)
        (addRecord_apart hnamed hapart)
      exact ⟨hnext.1.trans List.perm_middle.symm, hnext.2⟩
  exact hrun records [] [] (.refl _) (by simp) .nil

/-! ## Ordered components -/

/-- The ordinal of a record, which may be negative. -/
def ordinals (records : List Record) : List ℤ :=
  records.map fun record => record.ordinal.toInt

/-- The slots after the records `done`: each holds the record of its ordinal. -/
structure Placed (n : ℕ) (done : List Record) (slots : List (Option Record)) : Prop where
  length_eq : slots.length = n
  filled : ∀ (i : ℕ) record,
    slots[i]? = some (some record) ↔ record ∈ done ∧ record.ordinal.toInt = i
  range : ∀ record ∈ done, 0 ≤ record.ordinal.toInt ∧ record.ordinal.toInt < n
  nodup : (ordinals done).Nodup

theorem placed_nil (n : ℕ) : Placed n [] (List.replicate n none) := by
  refine ⟨List.length_replicate, fun i record => ?_, by simp, List.nodup_nil⟩
  rw [List.getElem?_replicate]
  split <;> simp

/-- A record is placed when it belongs to the relationship and its slot is free. -/
theorem placeRecord_ok_iff {n : ℕ} {first record : Record} {done : List Record}
    {slots slots' : List (Option Record)} (h : Placed n done slots) :
    placeRecord first slots record = .ok slots' ↔
      (first.sameRelationship record = true ∧ 0 ≤ record.ordinal.toInt ∧ record.ordinal.toInt < n ∧
        record.ordinal.toInt ∉ ordinals done) ∧
      slots' = slots.set record.ordinal.toInt.toNat (some record) := by
  simp only [placeRecord, bind_ok_iff, exists_unit, refuseIf_ok_iff, okOr_ok_iff, pure_ok_iff,
    Bool.not_eq_false, not_lt]
  constructor
  · rintro ⟨hsame, hpositive, slot, hslot, hfree, rfl⟩
    have hlt := (List.getElem?_eq_some_iff.mp hslot).1
    rw [h.length_eq] at hlt
    refine ⟨⟨hsame, hpositive, by omega, fun hmem => hfree ?_⟩, rfl⟩
    obtain ⟨other, hother, hordinal⟩ := List.mem_map.mp hmem
    -- a slot is taken by a record of the same ordinal
    have hheld := (h.filled record.ordinal.toInt.toNat other).mpr ⟨hother, by omega⟩
    rw [hslot] at hheld
    rw [Option.some.inj hheld]
    rfl
  · rintro ⟨⟨hsame, hpositive, hlt, hfresh⟩, rfl⟩
    have hbound : record.ordinal.toInt.toNat < slots.length := by
      rw [h.length_eq]
      omega
    refine ⟨hsame, hpositive, _, List.getElem?_eq_getElem hbound, fun hsome => hfresh ?_, rfl⟩
    obtain ⟨other, hother⟩ := Option.isSome_iff_exists.mp hsome
    have hheld := (h.filled record.ordinal.toInt.toNat other).mp
      ((List.getElem?_eq_getElem hbound).trans (congrArg some hother))
    exact List.mem_map.mpr ⟨other, hheld.1, by omega⟩

/-- A record is placed at its ordinal, where no other one is. -/
theorem Placed.set {n : ℕ} {record : Record} {done : List Record} {slots : List (Option Record)}
    (h : Placed n done slots) (hpositive : 0 ≤ record.ordinal.toInt)
    (hlt : record.ordinal.toInt < n) (hfresh : record.ordinal.toInt ∉ ordinals done) :
    Placed n (done ++ [record]) (slots.set record.ordinal.toInt.toNat (some record)) := by
  refine ⟨by rw [List.length_set, h.length_eq], fun i other => ?_, fun other hother => ?_, ?_⟩
  · rw [List.getElem?_set, h.length_eq, List.mem_append, List.mem_singleton]
    split
    · rename_i hi
      subst hi
      rw [if_pos (by omega), Option.some.injEq, Option.some.injEq]
      constructor
      · rintro rfl
        exact ⟨.inr rfl, by omega⟩
      · rintro ⟨hmem | rfl, hordinal⟩
        · exact absurd (List.mem_map.mpr ⟨other, hmem, by omega⟩) hfresh
        · rfl
    · rename_i hi
      rw [h.filled]
      constructor
      · rintro ⟨hmem, hordinal⟩
        exact ⟨.inl hmem, hordinal⟩
      · rintro ⟨hmem | rfl, hordinal⟩
        · exact ⟨hmem, hordinal⟩
        · exact absurd (by omega) hi
  · rcases List.mem_append.mp hother with hold | hnew
    · exact h.range other hold
    · rw [List.mem_singleton.mp hnew]
      exact ⟨hpositive, hlt⟩
  · rw [ordinals, List.map_append, List.nodup_append]
    refine ⟨h.nodup, List.nodup_singleton _, ?_⟩
    -- no record before has the ordinal
    rintro a ha b hb rfl
    rw [List.map_singleton, List.mem_singleton] at hb
    exact hfresh (hb ▸ ha)

/-- Ordinals that are those from zero on are the ordinals of a group in every order. -/
def Complete (group : List Record) : Prop :=
  (ordinals group).Perm ((List.range group.length).map Nat.cast)

theorem Complete.nodup {group : List Record} (h : Complete group) : (ordinals group).Nodup :=
  h.nodup_iff.mpr (List.Nodup.map Nat.cast_injective List.nodup_range)

theorem Complete.range {group : List Record} (h : Complete group) {record : Record}
    (hrecord : record ∈ group) :
    0 ≤ record.ordinal.toInt ∧ record.ordinal.toInt < group.length := by
  have hmem : record.ordinal.toInt ∈ (List.range group.length).map Nat.cast :=
    h.mem_iff.mp (List.mem_map_of_mem hrecord)
  obtain ⟨i, hi, hcast⟩ := List.mem_map.mp hmem
  rw [List.mem_range] at hi
  omega

/-- The slots of a whole group are the group in the order of its ordinals. -/
theorem Placed.slots_eq {group result : List Record} {slots : List (Option Record)}
    (h : Placed group.length group slots) (hperm : result.Perm group)
    (hordinals : ordinals result = (List.range group.length).map Nat.cast) :
    slots = result.map some := by
  have hlength : result.length = group.length := hperm.length_eq
  refine List.ext_getElem? fun i => ?_
  rw [List.getElem?_map]
  by_cases hi : i < result.length
  · rw [List.getElem?_eq_getElem hi, Option.map_some, h.filled]
    refine ⟨hperm.mem_iff.mp (List.getElem_mem hi), ?_⟩
    have hget : (ordinals result)[i]? = ((List.range group.length).map Nat.cast)[i]? := by
      rw [hordinals]
    rw [ordinals, List.getElem?_map, List.getElem?_map, List.getElem?_eq_getElem hi,
      List.getElem?_range (hlength ▸ hi)] at hget
    exact Option.some.inj hget
  · have hslots : slots.length ≤ i := by
      rw [h.length_eq]
      omega
    rw [List.getElem?_eq_none hslots, List.getElem?_eq_none (not_lt.mp hi), Option.map_none]

/-- A group in the order of its ordinals. -/
theorem exists_sorted {group : List Record} (h : Complete group) :
    ∃ result : List Record, result.Perm group ∧
      ordinals result = (List.range group.length).map Nat.cast := by
  have hcomp : Relation.Comp (fun l records => l = ordinals records) List.Perm
      ((List.range group.length).map Nat.cast) group := by
    unfold ordinals
    rw [List.eq_map_comp_perm]
    exact h.symm
  obtain ⟨result, hresult, hperm⟩ := hcomp
  exact ⟨result, hperm, hresult.symm⟩

/-- The components of a relationship are ordered exactly where they agree, are as many as they say,
and have the ordinals from zero on; the result is then the group in the order of its ordinals. -/
theorem ordered_ok_iff {group result : List Record} :
    ordered group = .ok result ↔
      (∃ first, group.head? = some first ∧ first.count.toInt = group.length ∧
        ∀ record ∈ group, first.sameRelationship record = true) ∧
      result.Perm group ∧ ordinals result = (List.range group.length).map Nat.cast := by
  have hslots : ∀ {result : List Record}, ((result.map some).mapM fun slot : Option Record =>
      okOr slot (WriteError.mismatch "missing relationship component ordinal")) = .ok result := by
    intro result
    induction result with
    | nil => rfl
    | cons record result ih =>
      rw [List.map_cons, List.mapM_cons, ih]
      rfl
  simp only [ordered, bind_ok_iff, exists_unit, refuseIf_ok_iff, okOr_ok_iff, ne_eq, not_not]
  constructor
  · rintro ⟨first, hfirst, hcount, slots, hfold, hresult⟩
    have hrun := foldlM_ok_induction (motive := fun done slots => Placed group.length done slots ∧
        ∀ record ∈ done, first.sameRelationship record = true)
      ⟨placed_nil group.length, by simp⟩
      (fun done record rest slots slots' _ hdone hstep => by
        obtain ⟨⟨hsame, hpositive, hlt, hfresh⟩, rfl⟩ := (placeRecord_ok_iff hdone.1).mp hstep
        refine ⟨hdone.1.set hpositive hlt hfresh, fun other hother => ?_⟩
        rcases List.mem_append.mp hother with hold | hnew
        · exact hdone.2 other hold
        · rwa [List.mem_singleton.mp hnew]) hfold
    refine ⟨⟨first, hfirst, hcount, hrun.2⟩, ?_⟩
    have hcomplete : Complete group := by
      -- as many different ordinals below the length as there are records
      refine (List.subperm_of_subset hrun.1.nodup fun ordinal hordinal => ?_).perm_of_length_le ?_
      · obtain ⟨record, hrecord, rfl⟩ := List.mem_map.mp hordinal
        obtain ⟨hpositive, hlt⟩ := hrun.1.range record hrecord
        exact List.mem_map.mpr ⟨record.ordinal.toInt.toNat, List.mem_range.mpr (by omega), by omega⟩
      · rw [ordinals, List.length_map, List.length_map, List.length_range]
    obtain ⟨sorted, hperm, hordinals⟩ := exists_sorted hcomplete
    rw [hrun.1.slots_eq hperm hordinals, hslots] at hresult
    rw [← Except.ok.inj hresult]
    exact ⟨hperm, hordinals⟩
  · rintro ⟨⟨first, hfirst, hcount, hsame⟩, hperm, hordinals⟩
    have hcomplete : Complete group := by
      rw [Complete, ← hordinals]
      exact (hperm.map _).symm
    obtain ⟨slots, hfold, hplaced⟩ := exists_foldlM_ok (l := group)
      (f := placeRecord first) (motive := fun done slots => Placed group.length done slots)
        (placed_nil group.length)
      (fun done record rest slots hsplit hdone => by
        have hmem : record ∈ group := by
          rw [hsplit]
          exact List.mem_append_right _ List.mem_cons_self
        obtain ⟨hpositive, hlt⟩ := hcomplete.range hmem
        have hfresh : record.ordinal.toInt ∉ ordinals done := by
          have hnodup := hcomplete.nodup
          rw [hsplit, ordinals, List.map_append, List.map_cons, List.nodup_append] at hnodup
          exact fun h => hnodup.2.2 _ h _ List.mem_cons_self rfl
        exact ⟨_, (placeRecord_ok_iff hdone).mpr ⟨⟨hsame record hmem, hpositive, hlt, hfresh⟩, rfl⟩,
          hdone.set hpositive hlt hfresh⟩)
    refine ⟨first, hfirst, hcount, slots, hfold, ?_⟩
    rw [hplaced.slots_eq hperm hordinals, hslots]

end RelationshipCatalog

end Jet3
