import Jet3.Relationship.Mutation

/-!
# What the restricting check decides

`checkConstraint_ok_iff` states when the check accepts a change that is not an insertion, row by
row: which keys must encode, what the state before the change must satisfy, and which child keys
the change may not leave behind.
-/

namespace Jet3

open Outcome

namespace Mutation

section Rows

variable (columns : List ColumnOrdinal) (kinds : List ScalarKeyType) (change : Option Change)

/-- The key of a row before the change. -/
def beforeOf (row : StoredRow) : Option Key :=
  ((rowKeys columns kinds change row).toOption.map Prod.fst).join

/-- The key of a row after the change, `none` for a deleted row. -/
def afterOf (row : StoredRow) : Option (Option Key) :=
  ((rowKeys columns kinds change row).toOption.map Prod.snd).join

/-- What the rows of one side contribute. -/
def collect (excludeReplacement : Bool) (keys : Keys) (rows : List StoredRow) : Keys where
  before := keys.before ++ rows.filterMap (beforeOf columns kinds change)
  after := keys.after ++ rows.filterMap fun row =>
    if isReplaced change excludeReplacement row then none
    else (afterOf columns kinds change row).join
  hasOtherNullAfter := keys.hasOtherNullAfter || rows.any fun row =>
    !isReplaced change excludeReplacement row && afterOf columns kinds change row == some none
  replacedAfter := rows.foldl (fun replaced row =>
    if isReplaced change excludeReplacement row then
      (afterOf columns kinds change row).getD replaced
    else replaced) keys.replacedAfter
  assignedNull := keys.assignedNull || rows.any fun row =>
    isAssigned columns change row && (beforeOf columns kinds change row).isNone
  assigned := keys.assigned ++ rows.filterMap fun row =>
    if isAssigned columns change row then beforeOf columns kinds change row else none

variable {columns kinds change}

/-- The keys a stored row adds, before and after the change. -/
theorem addRow_ok_iff {excludeReplacement : Bool} {keys keys' : Keys} {row : StoredRow} :
    addRow columns kinds change excludeReplacement keys row = .ok keys' ↔
      (∃ pair, rowKeys columns kinds change row = .ok pair) ∧
        keys' = collect columns kinds change excludeReplacement keys [row] := by
  rw [eq_comm (a := keys')]
  rcases hrow : rowKeys columns kinds change row with e | ⟨before, after⟩
  · simp [addRow, hrow]
  · have hbefore : beforeOf columns kinds change row = before := by
      simp [beforeOf, hrow, Except.toOption]
    have hafter : afterOf columns kinds change row = after := by
      simp [afterOf, hrow, Except.toOption]
    simp only [addRow, hrow, bind_ok_iff, Except.ok.injEq, exists_eq_left', pure_ok_iff, collect,
      List.filterMap_cons, List.filterMap_nil, List.any_cons, List.any_nil, List.foldl_cons,
      List.foldl_nil, hbefore, hafter, Bool.or_false, exists_eq', true_and]
    cases isReplaced change excludeReplacement row <;> cases isAssigned columns change row <;>
      rcases before with _ | before <;> rcases after with _ | _ | after <;> simp

/-- The keys of all stored rows. -/
theorem addRows_ok_iff {excludeReplacement : Bool} {keys keys' : Keys} {rows : List StoredRow} :
    rows.foldlM (addRow columns kinds change excludeReplacement) keys = .ok keys' ↔
      (∀ row ∈ rows, ∃ pair, rowKeys columns kinds change row = .ok pair) ∧
        keys' = collect columns kinds change excludeReplacement keys rows := by
  induction rows generalizing keys with
  | nil => simp [collect, eq_comm (a := keys')]
  | cons row rows ih =>
    have hcollect : collect columns kinds change excludeReplacement
        (collect columns kinds change excludeReplacement keys [row]) rows =
        collect columns kinds change excludeReplacement keys (row :: rows) := by
      simp only [collect, List.filterMap_cons, List.filterMap_nil, List.any_cons, List.any_nil,
        List.foldl_cons, List.foldl_nil, Bool.or_false, Bool.or_assoc, Keys.mk.injEq, true_and]
      refine ⟨?_, ?_, ?_⟩ <;> split <;> simp
    simp only [List.foldlM_cons, bind_ok_iff, addRow_ok_iff, ih, List.forall_mem_cons]
    constructor
    · rintro ⟨_, ⟨hrow, rfl⟩, hrows, rfl⟩
      exact ⟨⟨hrow, hrows⟩, hcollect⟩
    · rintro ⟨⟨hrow, hrows⟩, rfl⟩
      exact ⟨_, ⟨hrow, rfl⟩, hrows, hcollect.symm⟩

/-- At most one row of a table is replaced. -/
theorem replaced_eq_some_iff {excludeReplacement : Bool} {rows : List StoredRow} {key : Key}
    (hnodup : (rows.map StoredRow.locator).Nodup) :
    rows.foldl (fun replaced row =>
        if isReplaced change excludeReplacement row then
          (afterOf columns kinds change row).getD replaced
        else replaced) none = some key ↔
      ∃ row ∈ rows, isReplaced change excludeReplacement row = true ∧
        afterOf columns kinds change row = some (some key) := by
  have hlocator : ∀ row, isReplaced change excludeReplacement row = true →
      change.bind Change.locator = some row.locator := by
    intro row hrow
    simp only [isReplaced, Bool.and_eq_true, Option.any_eq_true, decide_eq_true_eq] at hrow
    obtain ⟨-, change', rfl, -, hlocator⟩ := hrow
    exact hlocator
  have hnone : ∀ (rows : List StoredRow) (acc : Option Key),
      (∀ row ∈ rows, isReplaced change excludeReplacement row = false) →
      rows.foldl (fun replaced row =>
        if isReplaced change excludeReplacement row then
          (afterOf columns kinds change row).getD replaced
        else replaced) acc = acc := by
    intro rows
    induction rows with
    | nil => exact fun _ _ => rfl
    | cons row rows ih =>
      intro acc h
      rw [List.foldl_cons, if_neg (by simp [h row List.mem_cons_self])]
      exact ih acc fun r hr => h r (List.mem_cons_of_mem row hr)
  induction rows with
  | nil => simp
  | cons row rows ih =>
    rw [List.map_cons, List.nodup_cons] at hnodup
    by_cases hrow : isReplaced change excludeReplacement row = true
    · -- rows have different locators, so no other row is replaced
      have hothers : ∀ r ∈ rows, isReplaced change excludeReplacement r = false := by
        intro r hr
        by_contra hreplaced
        rw [Bool.not_eq_false] at hreplaced
        have heq := (hlocator r hreplaced).symm.trans (hlocator row hrow)
        rw [Option.some.injEq] at heq
        exact hnodup.1 (heq ▸ List.mem_map_of_mem hr)
      rw [List.foldl_cons, if_pos hrow, hnone rows _ hothers]
      constructor
      · intro hkey
        refine ⟨row, List.mem_cons_self, hrow, ?_⟩
        rcases hafter : afterOf columns kinds change row with _ | after
        · simp [hafter] at hkey
        · rw [hafter, Option.getD_some] at hkey
          rw [hkey]
      · rintro ⟨r, hr, hreplaced, hafter⟩
        rcases List.mem_cons.mp hr with rfl | hr
        · rw [hafter, Option.getD_some]
        · rw [hothers r hr] at hreplaced
          exact absurd hreplaced (by simp)
    · rw [List.foldl_cons, if_neg hrow]
      exact (ih hnodup.2).trans (by simp [hrow])

end Rows

/-! ## One constraint -/

section Constraint

variable (database : Database) (target : PageNumber) (change : Change) (constraint : Constraint)

/-- The key of a parent row before the change. -/
def parentBefore : StoredRow → Option Key :=
  beforeOf constraint.parentColumns constraint.parentKinds
    (changeOf target change constraint.parent)

/-- The key of a parent row after the change. -/
def parentAfter : StoredRow → Option (Option Key) :=
  afterOf constraint.parentColumns constraint.parentKinds
    (changeOf target change constraint.parent)

/-- The key of a child row before the change. -/
def childBefore : StoredRow → Option Key :=
  beforeOf constraint.childColumns constraint.childKinds (changeOf target change constraint.child)

/-- The key of a child row after the change. -/
def childAfter : StoredRow → Option (Option Key) :=
  afterOf constraint.childColumns constraint.childKinds (changeOf target change constraint.child)

/-- The change assigns the key of this parent row. -/
def parentAssigned : StoredRow → Bool :=
  isAssigned constraint.parentColumns (changeOf target change constraint.parent)

/-- The child row is the replaced one, and is not compared with the keys its parent row assigns. -/
def childReplaced : StoredRow → Bool :=
  isReplaced (changeOf target change constraint.child)
    (constraint.parent = constraint.child && !constraint.selfReferenceRequiresExistingParent)

/-- Every key of the two sides encodes. -/
def SidesEncode : Prop :=
  (∀ row ∈ (database constraint.parent).rows, ∃ pair, rowKeys constraint.parentColumns
    constraint.parentKinds (changeOf target change constraint.parent) row = .ok pair) ∧
  ∀ row ∈ (database constraint.child).rows, ∃ pair, rowKeys constraint.childColumns
    constraint.childKinds (changeOf target change constraint.child) row = .ok pair

/-- The state before the change satisfies the constraint. -/
def HoldsBefore : Prop :=
  Key.unique (Key.sort
    ((database constraint.parent).rows.filterMap (parentBefore target change constraint))) = true ∧
  ∀ child ∈ (database constraint.child).rows, ∀ key,
    childBefore target change constraint child = some key →
    ∃ parent ∈ (database constraint.parent).rows, ∃ held,
      parentBefore target change constraint parent = some held ∧ held.bytes = key.bytes

/-- No child keeps the key an assigned parent held before. -/
def NothingOrphaned : Prop :=
  ∀ parent ∈ (database constraint.parent).rows, parentAssigned target change constraint parent =
    true →
    ∀ child ∈ (database constraint.child).rows, childReplaced target change constraint child =
      false →
      ∀ after, childAfter target change constraint child = some after →
        (parentBefore target change constraint parent).map Key.bytes ≠ after.map Key.bytes

/-- Every child key has a parent after the change, and one before it where the constraint asks. -/
def HoldsAfter : Prop :=
  ∀ child ∈ (database constraint.child).rows, ∀ key,
    childAfter target change constraint child = some (some key) →
    (∃ parent ∈ (database constraint.parent).rows, ∃ held,
      parentAfter target change constraint parent = some (some held) ∧ held.bytes = key.bytes) ∧
    (constraint.selfReferenceRequiresExistingParent = true →
      ∃ parent ∈ (database constraint.parent).rows, ∃ held,
        parentBefore target change constraint parent = some held ∧ held.bytes = key.bytes)

variable {database target change constraint}

/-- The key of an inserted row. -/
theorem addInserted_ok_iff {columns : List ColumnOrdinal} {kinds : List ScalarKeyType}
    {table : PageNumber} {keys keys' : Keys} (hlocator : change.locator.isSome = true) :
    addInserted columns kinds (changeOf target change table) keys = .ok keys' ↔ keys = keys' := by
  unfold addInserted changeOf
  cases change with
  | insert values => simp [Change.locator] at hlocator
  | replace row values => split <;> simp_all
  | field row column value => split <;> simp_all
  | delete row => split <;> simp_all

/-- The keys of the parent side. -/
theorem parentKeys_ok_iff {keys : Keys} (hlocator : change.locator.isSome = true) :
    parentKeys database target change constraint = .ok keys ↔
      (∀ row ∈ (database constraint.parent).rows, ∃ pair, rowKeys constraint.parentColumns
        constraint.parentKinds (changeOf target change constraint.parent) row = .ok pair) ∧
      keys = collect constraint.parentColumns constraint.parentKinds
        (changeOf target change constraint.parent) false
        { before := [], after := [], hasOtherNullAfter := false, replacedAfter := none
          assignedNull := false, assigned := [] } (database constraint.parent).rows := by
  simp only [parentKeys, Mutation.keys, bind_ok_iff, addRows_ok_iff, addInserted_ok_iff hlocator,
    exists_eq_right]

/-- The keys of the child side. -/
theorem childKeys_ok_iff {keys : Keys} (hlocator : change.locator.isSome = true) :
    childKeys database target change constraint = .ok keys ↔
      (∀ row ∈ (database constraint.child).rows, ∃ pair, rowKeys constraint.childColumns
        constraint.childKinds (changeOf target change constraint.child) row = .ok pair) ∧
      keys = collect constraint.childColumns constraint.childKinds
        (changeOf target change constraint.child)
        (constraint.parent = constraint.child && !constraint.selfReferenceRequiresExistingParent)
        { before := [], after := [], hasOtherNullAfter := false, replacedAfter := none
          assignedNull := false, assigned := [] } (database constraint.child).rows := by
  simp only [childKeys, Mutation.keys, bind_ok_iff, addRows_ok_iff, addInserted_ok_iff hlocator,
    exists_eq_right]

/-- The assigned parent keys are compared with the keys of the other child rows. -/
theorem nothingOrphaned_iff {parent child : Keys}
    (hparent : parentKeys database target change constraint = .ok parent)
    (hchild : childKeys database target change constraint = .ok child)
    (hlocator : change.locator.isSome = true) :
    NothingOrphaned database target change constraint ↔
      ¬(parent.assignedNull = true ∧ child.hasOtherNullAfter = true) ∧
        ∀ key ∈ parent.assigned, ¬Key.contains (Key.sort child.after) key = true := by
  obtain ⟨-, rfl⟩ := (parentKeys_ok_iff hlocator).mp hparent
  obtain ⟨-, rfl⟩ := (childKeys_ok_iff hlocator).mp hchild
  simp only [collect, Bool.false_or, List.nil_append, List.any_eq_true, Bool.and_eq_true,
    Option.isNone_iff_eq_none, beq_iff_eq, Bool.not_eq_true', List.mem_filterMap,
    Key.contains_sort_iff]
  constructor
  · intro h
    refine ⟨?_, ?_⟩
    · -- null keys are counted apart from the others
      rintro ⟨⟨p, hp, hassigned, hbefore⟩, c, hc, hreplaced, hafter⟩
      refine h p hp hassigned c hc hreplaced none hafter ?_
      rw [parentBefore, hbefore, Option.map_none]
    · rintro key ⟨p, hp, hkey⟩ ⟨other, ⟨c, hc, hother⟩, hbytes⟩
      cases hassigned : isAssigned constraint.parentColumns
          (changeOf target change constraint.parent) p
      · simp [hassigned] at hkey
      · rw [if_pos hassigned] at hkey
        split at hother
        · simp at hother
        · rename_i hreplaced
          rw [Bool.not_eq_true] at hreplaced
          refine h p hp hassigned c hc hreplaced _ (Option.join_eq_some_iff.mp hother) ?_
          rw [parentBefore, hkey, Option.map_some, Option.map_some, hbytes]
  · rintro ⟨hnull, hkeys⟩ p hp hassigned c hc hreplaced after hafter heq
    rcases hbefore : parentBefore target change constraint p with _ | key
    · rw [hbefore, Option.map_none, eq_comm, Option.map_eq_none_iff] at heq
      subst heq
      exact hnull ⟨⟨p, hp, hassigned, hbefore⟩, c, hc, hreplaced, hafter⟩
    · rw [hbefore, Option.map_some, eq_comm, Option.map_eq_some_iff] at heq
      obtain ⟨other, rfl, hbytes⟩ := heq
      refine hkeys key ⟨p, hp, ?_⟩ ⟨other, ⟨c, hc, ?_⟩, hbytes⟩
      · rw [← hbefore]
        exact if_pos hassigned
      · rw [if_neg (by rw [← childReplaced, hreplaced]; simp), ← childAfter, hafter]
        rfl

/-- The child keys after the change, the replaced row's included. -/
theorem mem_childAfter_iff {child : Keys}
    (hchild : childKeys database target change constraint = .ok child)
    (hlocator : change.locator.isSome = true) (key : Key) :
    key ∈ Key.sort child.after ++ child.replacedAfter.toList ↔
      ∃ row ∈ (database constraint.child).rows,
        childAfter target change constraint row = some (some key) := by
  obtain ⟨-, rfl⟩ := (childKeys_ok_iff hlocator).mp hchild
  simp only [collect, List.nil_append, List.mem_append, Key.mem_sort, List.mem_filterMap,
    Option.mem_toList, replaced_eq_some_iff (database constraint.child).locators_nodup]
  constructor
  · rintro (⟨row, hrow, hafter⟩ | ⟨row, hrow, -, hafter⟩)
    · split at hafter
      · simp at hafter
      · exact ⟨row, hrow, Option.join_eq_some_iff.mp hafter⟩
    · exact ⟨row, hrow, hafter⟩
  · rintro ⟨row, hrow, hafter⟩
    cases hreplaced : childReplaced target change constraint row
    · exact .inl ⟨row, hrow, by
        rw [if_neg (by rw [← childReplaced, hreplaced]; simp)]
        exact Option.join_eq_some_iff.mpr hafter⟩
    · exact .inr ⟨row, hrow, hreplaced, hafter⟩

/-- The searches for a missing parent. -/
theorem missing_eq_none_iff {parent child : Keys}
    (hparent : parentKeys database target change constraint = .ok parent)
    (hchild : childKeys database target change constraint = .ok child)
    (hlocator : change.locator.isSome = true) :
    (Key.missing (Key.sort parent.after)
        (Key.sort child.after ++ child.replacedAfter.toList)).or
      (if constraint.selfReferenceRequiresExistingParent then
        Key.missing (Key.sort parent.before)
          (Key.sort child.after ++ child.replacedAfter.toList)
      else none) = none ↔ HoldsAfter database target change constraint := by
  have hchildren := mem_childAfter_iff hchild hlocator
  have hparentAfter : ∀ key, key ∈ parent.after ↔ ∃ row ∈ (database constraint.parent).rows,
      parentAfter target change constraint row = some (some key) := by
    obtain ⟨-, rfl⟩ := (parentKeys_ok_iff hlocator).mp hparent
    intro key
    simp [collect, List.mem_filterMap, isReplaced, Option.join_eq_some_iff, parentAfter]
  have hparentBefore : ∀ key, key ∈ parent.before ↔ ∃ row ∈ (database constraint.parent).rows,
      parentBefore target change constraint row = some key := by
    obtain ⟨-, rfl⟩ := (parentKeys_ok_iff hlocator).mp hparent
    intro key
    simp [collect, List.mem_filterMap, parentBefore]
  -- a reference of a row to itself also needs a parent of before
  have hbefore : (if constraint.selfReferenceRequiresExistingParent = true then
        Key.missing (Key.sort parent.before) (Key.sort child.after ++ child.replacedAfter.toList)
      else none) = none ↔ (constraint.selfReferenceRequiresExistingParent = true →
        Key.missing (Key.sort parent.before)
          (Key.sort child.after ++ child.replacedAfter.toList) = none) := by
    cases constraint.selfReferenceRequiresExistingParent <;> simp
  rw [Option.or_eq_none_iff, hbefore, Key.missing_sort_eq_none_iff, Key.missing_sort_eq_none_iff]
  simp only [hchildren, hparentAfter, hparentBefore, HoldsAfter]
  constructor
  · rintro ⟨hafter, hexisting⟩ row hrow key hkey
    obtain ⟨held, ⟨p, hp, hheld⟩, hbytes⟩ := hafter key ⟨row, hrow, hkey⟩
    refine ⟨⟨p, hp, held, hheld, hbytes⟩, fun hself => ?_⟩
    obtain ⟨held, ⟨p, hp, hheld⟩, hbytes⟩ := hexisting hself key ⟨row, hrow, hkey⟩
    exact ⟨p, hp, held, hheld, hbytes⟩
  · intro h
    refine ⟨?_, fun hself => ?_⟩
    · rintro key ⟨row, hrow, hkey⟩
      obtain ⟨⟨p, hp, held, hheld, hbytes⟩, -⟩ := h row hrow key hkey
      exact ⟨held, ⟨p, hp, hheld⟩, hbytes⟩
    · rintro key ⟨row, hrow, hkey⟩
      obtain ⟨p, hp, held, hheld, hbytes⟩ := (h row hrow key hkey).2 hself
      exact ⟨held, ⟨p, hp, hheld⟩, hbytes⟩

/-- The checks of the state before the change. -/
theorem holdsBefore_iff {parent child : Keys}
    (hparent : parentKeys database target change constraint = .ok parent)
    (hchild : childKeys database target change constraint = .ok child)
    (hlocator : change.locator.isSome = true) :
    HoldsBefore database target change constraint ↔
      Key.unique (Key.sort parent.before) = true ∧
        Key.missing (Key.sort parent.before) child.before = none := by
  obtain ⟨-, rfl⟩ := (parentKeys_ok_iff hlocator).mp hparent
  obtain ⟨-, rfl⟩ := (childKeys_ok_iff hlocator).mp hchild
  rw [Key.missing_sort_eq_none_iff]
  simp only [HoldsBefore, collect, List.nil_append, List.mem_filterMap]
  refine and_congr_right fun _ => ?_
  constructor
  · rintro h key ⟨row, hrow, hkey⟩
    obtain ⟨p, hp, held, hheld, hbytes⟩ := h row hrow key hkey
    exact ⟨held, ⟨p, hp, hheld⟩, hbytes⟩
  · intro h row hrow key hkey
    obtain ⟨held, ⟨p, hp, hheld⟩, hbytes⟩ := h key ⟨row, hrow, hkey⟩
    exact ⟨p, hp, held, hheld, hbytes⟩

/-- When the restricting check accepts a change of an existing row. -/
theorem checkConstraint_ok_iff {u : Unit} (hlocator : change.locator.isSome = true) :
    checkConstraint database target change constraint = .ok u ↔
      SidesEncode database target change constraint ∧
      HoldsBefore database target change constraint ∧
      NothingOrphaned database target change constraint ∧
      HoldsAfter database target change constraint := by
  have hsides : SidesEncode database target change constraint ↔
      ∃ parent child, parentKeys database target change constraint = .ok parent ∧
        childKeys database target change constraint = .ok child := by
    simp only [parentKeys_ok_iff hlocator, childKeys_ok_iff hlocator, SidesEncode]
    constructor
    · rintro ⟨hparents, hchildren⟩
      exact ⟨_, _, ⟨hparents, rfl⟩, hchildren, rfl⟩
    · rintro ⟨-, -, ⟨hparents, -⟩, hchildren, -⟩
      exact ⟨hparents, hchildren⟩
  -- the four parts of the check, each by its own lemma
  rw [hsides]
  unfold checkConstraint
  simp only [bind_ok_iff, exists_unit, refuseIf_ok_iff, not_not, forM_ok_iff, refuseMissing_ok_iff,
    Option.not_isSome_iff_eq_none]
  constructor
  · rintro ⟨parent, hparent, child, hchild, hunique, horphan, hnull, hassigned, hmissing⟩
    exact ⟨⟨parent, child, hparent, hchild⟩,
      (holdsBefore_iff hparent hchild hlocator).mpr ⟨hunique, horphan⟩,
      (nothingOrphaned_iff hparent hchild hlocator).mpr ⟨hnull, hassigned⟩,
      (missing_eq_none_iff hparent hchild hlocator).mp hmissing⟩
  · rintro ⟨⟨parent, child, hparent, hchild⟩, hbefore, hnothing, hafter⟩
    obtain ⟨hunique, horphan⟩ := (holdsBefore_iff hparent hchild hlocator).mp hbefore
    obtain ⟨hnull, hassigned⟩ := (nothingOrphaned_iff hparent hchild hlocator).mp hnothing
    exact ⟨parent, hparent, child, hchild, hunique, horphan, hnull, hassigned,
      (missing_eq_none_iff hparent hchild hlocator).mpr hafter⟩

end Constraint

end Mutation

end Jet3
