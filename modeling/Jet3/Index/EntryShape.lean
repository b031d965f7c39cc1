import Jet3.Index.Key.Accepted
import Jet3.Index.TupleKey

/-!
# The shape of stored keys

Where an index is changed, the keys of its entries and branches are first checked against its
fields, whatever the rows say. A key of full length may have been shortened; it is checked once more
without its checksum.

* `validKeyShape` is the check;
* `keyShape_whole` and `keyShape_take` say that sequences of components pass, whole and cut;
* `validKeyShape_encode` says that every key of an entry passes.
-/

namespace Jet3

open Outcome

/-- The components of the fields from one on, behind `consumed` bytes of the key. -/
def keyShape (nullPolicy : IndexNullPolicy) (shortened : Bool) (allNull : Bool) (consumed : ℕ)
    (key : List UInt8) : List ScalarIndexField → Bool
  | [] => !shortened && key.isEmpty && !(allNull && nullPolicy = .ignoreAllNull)
  | field :: fields =>
    match field.kind.prefixOf key field.direction with
    | none => false
    | some (.cut maximum) =>
      let remaining := (fields.map fun field => field.kind.maximumLength).sum
      shortened && maxKeyBytes < consumed + maximum + remaining
    | some (.complete length) =>
      if key.length < length then false
      else if length = 1 ∧ nullPolicy = .required then false
      else keyShape nullPolicy shortened (allNull && length = 1) (consumed + length)
        (key.drop length) fields

/-- Checks the schema shape independently of current rows, including old branch fences. -/
def validKeyShape (fields : List ScalarIndexField) (nullPolicy : IndexNullPolicy)
    (key : List UInt8) :
    Bool :=
  if ¬(1 ≤ fields.length ∧ fields.length ≤ maxFields) ∨ maxKeyBytes < key.length then false
  else
    keyShape nullPolicy false true 0 key fields ||
      (key.length = maxKeyBytes &&
        keyShape nullPolicy true true 0 (key.take Binary.prefixBytes) fields)

variable {nullPolicy : IndexNullPolicy} {allNull : Bool} {consumed : ℕ}
  {fields : List ScalarIndexField} {components : List (List UInt8)}

/-- One component for each field. -/
def Spells (fields : List ScalarIndexField) (components : List (List UInt8)) : Prop :=
  List.Forall₂ (fun field component => field.kind.Accepts field.direction component) fields
    components

/-- A whole component is passed over. -/
theorem keyShape_cons {shortened : Bool} {field : ScalarIndexField} {component : List UInt8}
    (h : field.kind.Accepts field.direction component)
    (hnull : nullPolicy = .required → component.length ≠ 1) (tail : List UInt8) :
    keyShape nullPolicy shortened allNull consumed (component ++ tail) (field :: fields) =
      keyShape nullPolicy shortened (allNull && component.length = 1) (consumed + component.length)
        tail fields := by
  rw [keyShape, h.whole tail]
  dsimp only
  rw [if_neg (by rw [List.length_append]; omega), if_neg fun hbad => hnull hbad.2 hbad.1,
    List.drop_left]

/-- The components of a key that is not shortened pass, unless all are null where such keys are
omitted. -/
theorem keyShape_whole (h : Spells fields components)
    (hnull : nullPolicy = .required → ∀ component ∈ components, component.length ≠ 1)
    (hignored : nullPolicy = .ignoreAllNull → allNull = true →
      ∃ component ∈ components, component.length ≠ 1) :
    keyShape nullPolicy false allNull consumed components.flatten fields = true := by
  induction h generalizing allNull consumed with
  | nil =>
    cases allNull with
    | false => simp [keyShape]
    | true =>
      have hpolicy : nullPolicy ≠ .ignoreAllNull := by
        intro hpolicy
        obtain ⟨component, hmem, -⟩ := hignored hpolicy rfl
        cases hmem
      simp [keyShape, hpolicy]
  | @cons field component fields components hfirst hrest ih =>
    rw [List.flatten_cons, keyShape_cons hfirst fun hpolicy => hnull hpolicy _ List.mem_cons_self]
    refine ih (fun hpolicy other hother => hnull hpolicy other (List.mem_cons_of_mem _ hother)) ?_
    intro hpolicy hall
    rw [Bool.and_eq_true, decide_eq_true_eq] at hall
    obtain ⟨other, hother, hlength⟩ := hignored hpolicy hall.1
    rcases List.mem_cons.mp hother with rfl | hmem
    · exact absurd hall.2 hlength
    · exact ⟨other, hmem, hlength⟩

/-- A key is at most as long as its fields allow. -/
theorem Spells.length_flatten_le (h : Spells fields components) :
    components.flatten.length ≤ (fields.map fun field => field.kind.maximumLength).sum := by
  induction h with
  | nil => exact Nat.zero_le _
  | cons hfirst hrest ih =>
    rw [List.flatten_cons, List.length_append, List.map_cons, List.sum_cons]
    exact Nat.add_le_add hfirst.length_le ih

/-- The components of a key that is shortened pass, cut anywhere. -/
theorem keyShape_take (h : Spells fields components)
    (hnull : nullPolicy = .required → ∀ component ∈ components, component.length ≠ 1)
    (hlong : maxKeyBytes < consumed + components.flatten.length) {count : ℕ}
    (hcount : count < components.flatten.length) :
    keyShape nullPolicy true allNull consumed (components.flatten.take count) fields = true := by
  induction h generalizing allNull consumed count with
  | nil => exact absurd hcount (Nat.not_lt_zero count)
  | @cons field component fields components hfirst hrest ih =>
    rw [List.flatten_cons, List.length_append] at hcount hlong
    rw [List.flatten_cons]
    rcases Nat.lt_or_ge count component.length with hlt | hge
    · -- the key ends inside this component
      have hremaining := Spells.length_flatten_le hrest
      have hle := hfirst.length_le
      rw [List.take_append_of_le_length hlt.le, keyShape, hfirst.cut count hlt]
      simp only [Bool.true_and, decide_eq_true_eq]
      omega
    · rw [List.take_append, List.take_of_length_le hge,
        keyShape_cons hfirst fun hpolicy => hnull hpolicy _ List.mem_cons_self]
      exact ih (fun hpolicy other hother => hnull hpolicy other (List.mem_cons_of_mem _ hother))
        (by omega) (by omega)

namespace ScalarIndexEntry

/-- The loop over the fields of an entry collects accepted components, and sees which are null. -/
theorem spells_of_foldlM {values : List RowValue} {state state' : KeyAccumulator}
    (h : fields.foldlM (encodeField values) state = .ok state') :
    ∃ components, Spells fields components ∧ state'.key = state.key ++ components.flatten ∧
      state'.hasNull = (state.hasNull || components.any fun component => component.length = 1) ∧
      state'.allNull = (state.allNull && components.all fun component => component.length = 1) := by
  induction fields generalizing state with
  | nil =>
    obtain rfl := pure_ok_iff.mp h
    exact ⟨[], .nil, by simp⟩
  | cons field fields ih =>
    simp only [List.foldlM_cons, encodeField, bind_ok_iff, okOr_ok_iff, pure_ok_iff] at h
    obtain ⟨next, ⟨value, -, component, hcomponent, rfl⟩, hrest⟩ := h
    obtain ⟨components, hspells, hkey, hhas, hall⟩ := ih hrest
    obtain ⟨haccepts, hnull⟩ := ScalarKeyType.accepts_of_encode hcomponent
    have hisNull : field.kind.isNull value = decide (component.length = 1) := by
      rw [Bool.eq_iff_iff, decide_eq_true_eq, hnull]
    refine ⟨component :: components, .cons haccepts hspells, ?_, ?_, ?_⟩
    · rw [hkey, List.flatten_cons, List.append_assoc]
    · rw [hhas, hisNull, List.any_cons, Bool.or_assoc]
    · rw [hall, hisNull, List.all_cons, Bool.and_assoc]

/-- Every key that is written passes the check of stored keys, also where it was shortened. -/
theorem validKeyShape_encode {values : List RowValue} {locator : RowLocator}
    {entry : ScalarIndexEntry}
    (h : encode fields values nullPolicy locator = .ok (some entry)) :
    validKeyShape fields nullPolicy entry.key = true := by
  simp only [encode, bind_ok_iff, exists_unit, refuseIf_ok_iff, not_not] at h
  obtain ⟨hfields, -, state, hfold, hrequired, hentry⟩ := h
  obtain ⟨components, hspells, hkey, hhas, hall⟩ := spells_of_foldlM hfold
  rw [List.nil_append] at hkey
  rw [Bool.false_or] at hhas
  rw [Bool.true_and] at hall
  -- a required key has no null field, since the encoder refuses one
  have hnull : nullPolicy = .required → ∀ component ∈ components, component.length ≠ 1 := by
    intro hpolicy component hmem hone
    refine hrequired ⟨?_, hpolicy⟩
    rw [hhas, List.any_eq_true]
    exact ⟨component, hmem, decide_eq_true hone⟩
  split at hentry
  · cases hentry
  next hignored =>
    obtain rfl := Option.some.inj (pure_ok_iff.mp hentry)
    -- the encoder leaves out an entry all of whose fields are null
    have hsome : nullPolicy = .ignoreAllNull → true = true →
        ∃ component ∈ components, component.length ≠ 1 := by
      intro hpolicy _
      by_contra hnone
      refine hignored ⟨?_, hpolicy⟩
      rw [hall, List.all_eq_true]
      intro component hmem
      by_contra hne
      exact hnone ⟨component, hmem, fun hone => hne (decide_eq_true hone)⟩
    rw [validKeyShape, hkey]
    dsimp only
    rcases Nat.lt_or_ge maxKeyBytes components.flatten.length with hlong | hshort
    · have hlength : (Binary.shorten components.flatten).length = maxKeyBytes := by
        rw [Binary.shorten, if_neg (by omega), List.length_append, List.length_take]
        simp only [length_leBytes, Binary.prefixBytes]
        unfold maxKeyBytes at *
        omega
      -- a key that is cut keeps its front, and the front of a key has its shape
      have htake : (Binary.shorten components.flatten).take Binary.prefixBytes =
          components.flatten.take Binary.prefixBytes := by
        rw [Binary.shorten, if_neg (by omega), List.take_left']
        rw [List.length_take]
        unfold Binary.prefixBytes
        omega
      rw [if_neg (by rw [hlength]; omega), htake,
        keyShape_take hspells hnull (by omega) (by unfold Binary.prefixBytes; omega), hlength]
      simp
    · have hsame : Binary.shorten components.flatten = components.flatten := by
        rw [Binary.shorten, if_pos hshort]
      rw [hsame, if_neg (by omega), keyShape_whole hspells hnull hsome, Bool.true_or]

/-- A key of 276 bytes, shortened inside its binary component. -/
theorem validKeyShape_encode_shortened :
    ∃ entry, encode [⟨1, .ascending, .text 10 .general⟩, ⟨0, .descending, .binary 255⟩]
        [.binary (List.replicate 240 1), .text [0x61, 0xe4]] .required { page := 5, slot := 0 } =
          .ok (some entry) ∧
      validKeyShape [⟨1, .ascending, .text 10 .general⟩, ⟨0, .descending, .binary 255⟩] .required
        entry.key = true := by
  obtain ⟨entry, hentry⟩ := @exists_ok_some _ _
    (encode [⟨1, .ascending, .text 10 .general⟩, ⟨0, .descending, .binary 255⟩]
      [.binary (List.replicate 240 1), .text [0x61, 0xe4]] .required { page := 5, slot := 0 })
    (by decide +kernel)
  exact ⟨entry, hentry, validKeyShape_encode hentry⟩

end ScalarIndexEntry

end Jet3
