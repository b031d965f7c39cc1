import Jet3.Relationship.Cascade

/-!
# What validation decides

`validateConstraint_ok_iff` states when the rows satisfy one constraint: every key column encodes,
no two parents share a key free of nulls, and every child key has a parent. The guards are inverted
the same way by `guards_ok_iff`.
-/

namespace Jet3

open Outcome

namespace Cascade

/-- The key a row contributes as a parent of the validated state. -/
def parentKeyOf (constraint : Constraint) (after : Bool) (row : Row) : Option Key :=
  if row.table = constraint.parent ∧ ¬(after = true ∧ row.deleted = true) then
    (row.key constraint.parentColumns constraint.parentKinds after).toOption.join
  else none

/-- The key a row contributes as a parent that existed before the change. -/
def previousKeyOf (constraint : Constraint) (after : Bool) (row : Row) : Option Key :=
  if row.table = constraint.parent then (previousKey constraint after row).toOption.join
  else none

/-- The parent key columns of a row encode wherever validation reads them. -/
def ParentEncodes (constraint : Constraint) (after : Bool) (row : Row) : Prop :=
  row.table = constraint.parent →
    (∃ key, previousKey constraint after row = .ok key) ∧
    (¬(after = true ∧ row.deleted = true) →
      ∃ key, row.key constraint.parentColumns constraint.parentKinds after = .ok key)

/-- What a validation that reads the child key of `row` requires of it. -/
def ChildHolds (constraint : Constraint) (after : Bool) (rows : List Row) (row : Row) : Prop :=
  ∃ key, row.key constraint.childColumns constraint.childKinds after = .ok key ∧
    ∀ child, key = some child →
      (∃ parent ∈ rows.filterMap (parentKeyOf constraint after), parent.bytes = child.bytes) ∧
      (after = true → constraint.selfReferenceRequiresExistingParent = true →
        ∃ parent ∈ rows.filterMap (previousKeyOf constraint after), parent.bytes = child.bytes)

/-- The keys a parent adds. -/
theorem collectParent_ok_iff {constraint : Constraint} {after : Bool} {keys keys' : ParentKeys}
    {row : Row} :
    collectParent constraint after keys row = .ok keys' ↔
      ParentEncodes constraint after row ∧
        keys' = { parents := keys.parents ++ (parentKeyOf constraint after row).toList
                  previous := keys.previous ++ (previousKeyOf constraint after row).toList } := by
  unfold collectParent ParentEncodes parentKeyOf previousKeyOf
  rw [eq_comm (a := keys')]
  by_cases htable : row.table = constraint.parent
  · rcases previousKey constraint after row with e | previous
    · simp [htable]
    · by_cases hgone : after = true ∧ row.deleted = true
      · simp [htable, hgone, Except.toOption]
      · rcases row.key constraint.parentColumns constraint.parentKinds after with e | key <;>
          simp [htable, hgone, Except.toOption]
  · simp [htable]

/-- The keys a validation collects. -/
theorem collectParents_ok_iff {constraint : Constraint} {after : Bool} {rows : List Row}
    {keys keys' : ParentKeys} :
    rows.foldlM (collectParent constraint after) keys = .ok keys' ↔
      (∀ row ∈ rows, ParentEncodes constraint after row) ∧
        keys' = { parents := keys.parents ++ rows.filterMap (parentKeyOf constraint after)
                  previous := keys.previous ++ rows.filterMap
                    (previousKeyOf constraint after) } := by
  induction rows generalizing keys with
  | nil => simp [eq_comm (a := keys')]
  | cons row rows ih =>
    simp only [List.foldlM_cons, bind_ok_iff, collectParent_ok_iff, ih, List.forall_mem_cons]
    constructor
    · rintro ⟨_, ⟨hrow, rfl⟩, hrows, rfl⟩
      refine ⟨⟨hrow, hrows⟩, ?_⟩
      simp [List.filterMap_cons]
      constructor <;> split <;> simp [*]
    · rintro ⟨⟨hrow, hrows⟩, rfl⟩
      refine ⟨_, ⟨hrow, rfl⟩, hrows, ?_⟩
      simp [List.filterMap_cons]
      constructor <;> split <;> simp [*]

/-- A child is accepted where it has no key, or that of a parent. -/
theorem validateChild_ok_iff {constraint : Constraint} {after : Bool} {rows : List Row} {row : Row}
    {u : Unit} :
    validateChild constraint after
        { parents := Key.sort (rows.filterMap (parentKeyOf constraint after))
          previous := Key.sort (rows.filterMap (previousKeyOf constraint after)) } row = .ok u ↔
      (row.table = constraint.child → ¬(after = true ∧ row.deleted = true) →
        ChildHolds constraint after rows row) := by
  unfold validateChild ChildHolds
  by_cases hskip : row.table ≠ constraint.child ∨ (after = true ∧ row.deleted = true)
  · rw [if_pos hskip]
    simp only [pure_ok_iff, true_iff]
    intro htable hgone
    exact absurd hskip (by tauto)
  · rw [if_neg hskip]
    simp only [not_or, not_not] at hskip
    rcases hkey : row.key constraint.childColumns constraint.childKinds after with e | _ | key
    · simp [hskip]
    · simp [hskip]
    · simp only [bind_ok_iff, Except.ok.injEq, exists_eq_left', refuseIf_ok_iff, not_or, not_and,
        not_not, Key.contains_sort_iff, hskip, not_false_eq_true, forall_const, Option.some.injEq,
        forall_eq']

/-- When the rows satisfy one constraint. -/
theorem validateConstraint_ok_iff {constraint : Constraint} {after : Bool} {rows : List Row}
    {u : Unit} :
    validateConstraint rows after constraint = .ok u ↔
      (∀ row ∈ rows, ParentEncodes constraint after row) ∧
      Key.unique (Key.sort (rows.filterMap (parentKeyOf constraint after))) = true ∧
      ∀ row ∈ rows, row.table = constraint.child → ¬(after = true ∧ row.deleted = true) →
        ChildHolds constraint after rows row := by
  simp only [validateConstraint, bind_ok_iff, collectParents_ok_iff, List.nil_append, exists_unit,
    refuseIf_ok_iff, not_not, forM_ok_iff]
  constructor
  · rintro ⟨_, ⟨hencodes, rfl⟩, hunique, hchildren⟩
    exact ⟨hencodes, hunique, fun row hrow => validateChild_ok_iff.mp (hchildren row hrow)⟩
  · rintro ⟨hencodes, hunique, hchildren⟩
    exact ⟨_, ⟨hencodes, rfl⟩, hunique, fun row hrow =>
      validateChild_ok_iff.mpr (hchildren row hrow)⟩

/-- A key collected from the parents of the validated state belongs to one of them. -/
theorem mem_parentKeys {constraint : Constraint} {after : Bool} {rows : List Row} {key : Key} :
    key ∈ rows.filterMap (parentKeyOf constraint after) ↔
      ∃ row ∈ rows, row.table = constraint.parent ∧ ¬(after = true ∧ row.deleted = true) ∧
        row.key constraint.parentColumns constraint.parentKinds after = .ok (some key) := by
  simp only [List.mem_filterMap]
  refine exists_congr fun row => and_congr_right fun _ => ?_
  unfold parentKeyOf
  rcases hkey : row.key constraint.parentColumns constraint.parentKinds after with e | _ | k <;>
    simp [Except.toOption, and_assoc]

/-- A validated state before the change encodes every key some constraint reads. -/
theorem validate_before {rows : List Row} {constraints : List Constraint} {u : Unit}
    (h : validate rows constraints false = .ok u) :
    ∀ constraint ∈ constraints, ∀ row ∈ rows,
      (row.table = constraint.parent →
        ∃ key, row.key constraint.parentColumns constraint.parentKinds false = .ok key) ∧
      (row.table = constraint.child →
        ∃ key, row.key constraint.childColumns constraint.childKinds false = .ok key) := by
  intro constraint hconstraint row hrow
  obtain ⟨hparents, -, hchildren⟩ :=
    validateConstraint_ok_iff.mp (forM_ok_iff.mp h constraint hconstraint)
  refine ⟨fun htable => (hparents row hrow htable).2 (by simp), fun htable => ?_⟩
  obtain ⟨key, hkey, -⟩ := hchildren row hrow htable (by simp)
  exact ⟨key, hkey⟩

/-! ## Guards -/

/-- The guards compare this child of the parent at `position`. -/
def Guarded (constraint : Constraint) (selected position : ℕ) (change : Change)
    (child : Row × ℕ) : Prop :=
  child.1.table = constraint.child ∧ child.1.deleted = false ∧
    ¬(position = selected ∧ child.2 = selected ∧ change.isReplace = true ∧
      constraint.selfReferenceRequiresExistingParent = false)

/-- The guards read this parent: its key changed and the change is not propagated. -/
def Restricts (constraint : Constraint) (parent : Row) : Prop :=
  parent.table = constraint.parent ∧ parent.assigned constraint.parentColumns = true ∧
    constraint.cascades parent.deleted = false

/-- A child is accepted where it is not left behind. -/
theorem guardChild_ok_iff {constraint : Constraint} {selected position : ℕ} {change : Change}
    {key : Option Key} {child : Row × ℕ} {u : Unit} :
    guardChild constraint selected position change key child = .ok u ↔
      (Guarded constraint selected position change child →
        ∃ after, child.1.key constraint.childColumns constraint.childKinds true = .ok after ∧
          equal key after = false) := by
  unfold guardChild Guarded
  by_cases hother : child.1.table ≠ constraint.child ∨ child.1.deleted = true
  · rw [if_pos hother]
    simp only [pure_ok_iff, true_iff]
    rintro ⟨htable, hdeleted, -⟩
    rcases hother with h | h
    · exact absurd htable h
    · rw [h] at hdeleted
      exact absurd hdeleted (by simp)
  · rw [if_neg hother]
    simp only [not_or, not_not, Bool.not_eq_true] at hother
    -- a row that refers to itself is left to the check after the change
    by_cases hself : position = selected ∧ child.2 = selected ∧ change.isReplace = true ∧
        ¬constraint.selfReferenceRequiresExistingParent = true
    · rw [if_pos hself]
      rw [Bool.not_eq_true] at hself
      simp [hself]
    · rw [if_neg hself]
      rw [Bool.not_eq_true] at hself
      simp [hself, hother]

/-- A parent is accepted where none of its children is left behind. -/
theorem guardParent_ok_iff {constraint : Constraint} {rows : List Row} {selected : ℕ}
    {change : Change} {parent : Row × ℕ} {u : Unit} :
    guardParent rows constraint selected change parent = .ok u ↔
      (Restricts constraint parent.1 →
        ∃ key, parent.1.key constraint.parentColumns constraint.parentKinds false = .ok key ∧
          ∀ child ∈ rows.zipIdx, Guarded constraint selected parent.2 change child →
            ∃ after, child.1.key constraint.childColumns constraint.childKinds true = .ok after ∧
              equal key after = false) := by
  unfold guardParent Restricts
  by_cases hskip : parent.1.table ≠ constraint.parent ∨
      ¬parent.1.assigned constraint.parentColumns = true ∨
      constraint.cascades parent.1.deleted = true
  · rw [if_pos hskip]
    simp only [pure_ok_iff, true_iff]
    intro h
    simp [h] at hskip
  · rw [if_neg hskip]
    simp only [not_or, not_not, Bool.not_eq_true] at hskip
    simp only [bind_ok_iff, forM_ok_iff, guardChild_ok_iff, hskip, true_and, forall_const]

/-- When the guards let a change pass. -/
theorem guards_ok_iff {rows : List Row} {constraints : List Constraint} {selected : ℕ}
    {change : Change} {u : Unit} :
    guards rows constraints selected change = .ok u ↔
      ∀ constraint ∈ constraints, ∀ parent ∈ rows.zipIdx, Restricts constraint parent.1 →
        ∃ key, parent.1.key constraint.parentColumns constraint.parentKinds false = .ok key ∧
          ∀ child ∈ rows.zipIdx, Guarded constraint selected parent.2 change child →
            ∃ after, child.1.key constraint.childColumns constraint.childKinds true = .ok after ∧
              equal key after = false := by
  simp only [guards, forM_ok_iff, guardParent_ok_iff]

/-! ## Plans -/

/-- What an accepted change went through. -/
theorem prepare_ok_some_iff {rules : PageNumber → Except WriteError Unit}
    {autoIncrement : ColumnOrdinal → Bool} {target : PageNumber} {constraints : List Constraint}
    {fuel : ℕ} {rows plan : List Row} {change : Change} :
    prepare rules autoIncrement target constraints fuel rows change = .ok (some plan) ↔
      validate rows constraints false = .ok () ∧
      ∃ start selected, select autoIncrement target change rows = .ok (start, selected) ∧
        propagate constraints fuel start selected = .ok (some plan) ∧
        (∀ constraint ∈ constraints, refusesRules rules plan selected constraint = .ok ()) ∧
        guards plan constraints selected change = .ok () ∧
        validate plan constraints true = .ok () := by
  simp only [prepare, bind_ok_iff, exists_unit, Prod.exists]
  refine and_congr_right fun _ => exists_congr fun start => exists_congr fun selected =>
    and_congr_right fun _ => ?_
  constructor
  · rintro ⟨result, hrun, h⟩
    rcases result with _ | final
    · simp at h
    · simp only [bind_ok_iff, exists_unit, forM_ok_iff, pure_ok_iff, Option.some.injEq] at h
      obtain ⟨hrules, hguards, hafter, rfl⟩ := h
      exact ⟨hrun, hrules, hguards, hafter⟩
  · rintro ⟨hrun, hrules, hguards, hafter⟩
    refine ⟨some plan, hrun, ?_⟩
    simp only [bind_ok_iff, exists_unit, forM_ok_iff, pure_ok_iff, and_true]
    exact ⟨hrules, hguards, hafter⟩

/-- The result of a worklist that ended does not depend on how much fuel was left. -/
theorem propagate_unique {constraints : List Constraint} {rows final final' : List Row}
    {selected fuel fuel' : ℕ} (h : propagate constraints fuel rows selected = .ok (some final))
    (h' : propagate constraints fuel' rows selected = .ok (some final')) : final = final' := by
  have hmore := Worklist.run_mono (le_max_left fuel fuel') h
  have hmore' := Worklist.run_mono (le_max_right fuel fuel') h'
  rw [hmore] at hmore'
  simpa using hmore'

end Cascade

end Jet3
