import Jet3.Relationship.CascadeDelete
import Jet3.Relationship.CascadeUpdate

/-!
# Termination of cascades

Deletions always end. An update ends exactly when its worklist, at some point, stops to change rows
that lie on a cycle of tied rows; it does so when no field of such a row is assigned two different
values. Otherwise two values can chase each other around the cycle for ever.

* `Moment` are the states a run goes through, one constraint after the other;
* `propagate_terminates` is the termination theorem, without any resource budget;
* `Held` are the values the fields of a row can have together, and `oneValueOnCycles_of_held` is the
  condition they give on the rows of the request;
* `propagate_ring_never_ends` is a run that does not end.
-/

namespace Jet3

open Outcome Lookup

namespace Cascade

/-- The rows `load` makes: nothing assigned, and no field twice. -/
structure Snapshots (rows : List Row) : Prop where
  fresh : Fresh rows
  columns_nodup : ∀ row ∈ rows, (row.fields.map Field.column).Nodup

/-- The value assigned to a field. -/
def Row.assignedValue (row : Row) (column : ColumnOrdinal) : Option Value :=
  (row.field column).bind Field.after

/-! ## Moments of a run -/

/-- The rows in the course of a run: after `n` queue items, and `k` constraints of the next one. -/
def Moment (constraints : List Constraint) (start : List Row) (selected n k : ℕ)
    (rows : List Row) : Prop :=
  ∃ before position rest pushed,
    Worklist.advance (propagateStep constraints) n start [selected] =
      .ok (some (before, position :: rest)) ∧
    propagateStep (constraints.take k) before position = .ok (rows, pushed)

/-- From some queue item on, no constraint changes a row that lies on a cycle of tied rows. -/
def SettlesOnCycles (constraints : List Constraint) (start : List Row) (selected : ℕ) : Prop :=
  ∃ n, ∀ m ≥ n, ∀ k rows rows', Moment constraints start selected m k rows →
    Moment constraints start selected m (k + 1) rows' →
    ∀ j, Worklist.OnCycle (Feeds constraints false start) j → rows'[j]? = rows[j]?

/-- No field of a row that lies on a cycle of tied rows is assigned two different values, unless the
request names it: such a field keeps its value anyway. -/
def OneValueOnCycles (constraints : List Constraint) (start : List Row) (selected : ℕ) : Prop :=
  ∀ j, Worklist.OnCycle (Feeds constraints false start) j →
    ∀ n k n' k' rows rows' row row' column value value',
      Moment constraints start selected n k rows → Moment constraints start selected n' k' rows' →
      rows[j]? = some row → rows'[j]? = some row' → row.isOpen column = true →
      row.assignedValue column = some value → row'.assignedValue column = some value' →
      value = value'

/-! ## The rows of a request -/

/-- The values a row has been assigned are its own. -/
theorem withAfter_assignedValue {row : Row} (hnodup : (row.fields.map Field.column).Nodup) :
    row.withAfter row.assignedValue = row := by
  have hfields : row.fields.map
    (fun field => { field with after := row.assignedValue field.column }) =
      row.fields := by
    refine (List.map_congr_left fun field hfield => ?_).trans (List.map_id row.fields)
    have hfound : row.field field.column = some field := by
      obtain ⟨found, hmem, hfound⟩ := exists_field rfl (List.mem_map_of_mem hfield)
      rw [hfound, List.inj_on_of_nodup_map hnodup hmem hfield (field_column hfound)]
    rw [Row.assignedValue, hfound, Option.bind_some]
    rfl
  rw [Row.withAfter, hfields]

/-- What the worklist of an update starts from. -/
structure UpdateStart (constraints : List Constraint) (rows : List Row) : Prop where
  updates : UpdateRows constraints rows
  explicit : ∀ row ∈ rows, ∀ column value, row.assignedValue column = some value →
    row.isOpen column = false

/-- What the request does to a fresh field. -/
theorem assignRequest_fresh {autoIncrement : ColumnOrdinal → Bool} {change : Change}
    {field field' : Field} (hfresh : field.after = none)
    (h : assignRequest autoIncrement change field = .ok field') :
    field'.column = field.column ∧ field'.before = field.before ∧
      (field'.after ≠ none → field'.isExplicit = true) := by
  rcases assignRequest_ok_iff.mp h with ⟨-, rfl⟩ | ⟨-, after, -, -, rfl⟩
  · exact ⟨rfl, rfl, fun hne => absurd hfresh hne⟩
  · exact ⟨rfl, rfl, fun _ => rfl⟩

/-- Every row of an update comes from a loaded one by assigning explicit fields. -/
theorem select_rows {autoIncrement : ColumnOrdinal → Bool} {target : PageNumber}
    {change : Change} {rows start : List Row} {selected : ℕ} (hfresh : Fresh rows)
    (hdelete : change.isDelete = false)
    (h : select autoIncrement target change rows = .ok (start, selected)) :
    selected < start.length ∧ ∀ row ∈ start, ∃ loaded ∈ rows, ∃ assign : Field → Field,
      row.table = loaded.table ∧ row.deleted = false ∧ row.fields = loaded.fields.map assign ∧
        ∀ field ∈ loaded.fields, (assign field).column = field.column ∧
          (assign field).before = field.before ∧
          ((assign field).after ≠ none → (assign field).isExplicit = true) := by
  simp only [select, bind_ok_iff, okOr_ok_iff, pure_ok_iff] at h
  obtain ⟨i, -, row, hrow, row', hassign, heq⟩ := h
  cases heq
  have hmem := List.mem_of_getElem? hrow
  obtain ⟨htable, -, hdeleted, assign, hfields, hrequest⟩ := assignRow_ok hassign
  refine ⟨by simpa using (List.getElem?_eq_some_iff.mp hrow).1, fun r hr => ?_⟩
  rcases List.mem_or_eq_of_mem_set hr with hr | rfl
  · refine ⟨r, hr, id, rfl, (hfresh r hr).1, by simp, fun field hfield => ⟨rfl, rfl, ?_⟩⟩
    exact fun hne => absurd ((hfresh r hr).2 field hfield).1 hne
  · refine ⟨row, hmem, assign, htable, ?_, hfields, fun field hfield =>
      assignRequest_fresh ((hfresh row hmem).2 field hfield).1 (hrequest field hfield)⟩
    rw [hdeleted, hdelete, (hfresh row hmem).1, Bool.or_self]

/-- The selection of an update. -/
theorem select_update {autoIncrement : ColumnOrdinal → Bool} {target : PageNumber}
    {change : Change} {constraints : List Constraint} {rows start : List Row} {selected : ℕ}
    (hrows : Snapshots rows) (hencodes : Encodes constraints rows)
    (hdelete : change.isDelete = false)
    (h : select autoIncrement target change rows = .ok (start, selected)) :
    selected < start.length ∧ UpdateStart constraints start := by
  -- every selected row comes from a loaded one, with some of its fields assigned
  obtain ⟨hlt, hstart⟩ := select_rows hrows.fresh hdelete h
  refine ⟨hlt, ⟨fun row hrow => ?_, fun row hrow => ?_, fun constraint hconstraint row hrow => ?_⟩,
    fun row hrow column value hvalue => ?_⟩
  · obtain ⟨-, -, -, -, hkept, -⟩ := hstart row hrow
    exact hkept
  · obtain ⟨loaded, hloaded, assign, -, -, hfields, hassign⟩ := hstart row hrow
    have hcolumns : row.fields.map Field.column = loaded.fields.map Field.column := by
      rw [hfields, List.map_map]
      exact List.map_congr_left fun field hfield => (hassign field hfield).1
    rw [hcolumns]
    exact hrows.columns_nodup loaded hloaded
  · obtain ⟨loaded, hloaded, assign, htable, -, hfields, hassign⟩ := hstart row hrow
    have hkey := key_before_map hfields fun field hfield =>
      ⟨(hassign field hfield).1, (hassign field hfield).2.1⟩
    rw [htable, hkey, hkey]
    exact hencodes constraint hconstraint loaded hloaded
  · obtain ⟨loaded, -, assign, -, -, hfields, hassign⟩ := hstart row hrow
    rw [Row.assignedValue, Option.bind_eq_some_iff] at hvalue
    obtain ⟨found, hfound, hafter⟩ := hvalue
    rw [field_map hfields fun field hfield => (hassign field hfield).1,
      Option.map_eq_some_iff] at hfound
    obtain ⟨field, hfield, rfl⟩ := hfound
    have hexplicit := (hassign field (List.mem_of_find?_eq_some hfield)).2.2
      (by rw [hafter]; simp)
    rw [Row.isOpen, field_map hfields fun field hfield => (hassign field hfield).1, hfield]
    simp [hexplicit]

/-! ## Updates -/

section Update

variable {constraints : List Constraint} {rows : List Row}

/-- A changed field was open, and received the current value of a tied parent's field. -/
theorem feed_ne {constraint : Constraint} {g : Assignment} {parent child : Row}
    {column : ColumnOrdinal} (h : feed constraint g parent child column ≠ g child column) :
    fires constraint g parent child = true ∧ child.isOpen column = true ∧
      ∃ parentColumn value, (column, parentColumn) ∈ constraint.childColumns.zip
          constraint.parentColumns ∧ current g parent parentColumn = some value ∧
        feed constraint g parent child column = some value := by
  unfold feed at h ⊢
  by_cases hfires : (fires constraint g parent child && child.isOpen column) = true
  · rw [if_pos hfires] at h ⊢
    rw [Bool.and_eq_true] at hfires
    refine ⟨hfires.1, hfires.2, ?_⟩
    -- without a column of the parent, or a value in it, nothing would be sent
    unfold sent at h ⊢
    rcases hlookup : (constraint.childColumns.zip constraint.parentColumns).lookup column
      with _ | parentColumn
    · rw [hlookup] at h
      exact absurd rfl h
    · rw [hlookup, Option.bind_some] at h
      rcases hcurrent : current g parent parentColumn with _ | value
      · rw [hcurrent] at h
        exact absurd rfl h
      · exact ⟨parentColumn, value, mem_of_lookup hlookup, hcurrent, by
          rw [Option.bind_some, hcurrent]
          rfl⟩
  · rw [if_neg hfires] at h
    exact absurd rfl h

/-- The fields of the row at `j` a cascade can still assign for the first time. -/
def unassigned (rows : List Row) (j : ℕ) : ℕ :=
  (rows[j]?.map fun row => row.fields.countP fun field =>
    !field.isExplicit && field.after.isNone).getD 0

/-- The fields of a row that can still be assigned. -/
theorem unassigned_withAfter {g : Assignment} {j : ℕ} {row : Row} (hj : rows[j]? = some row) :
    unassigned (withAfter rows g) j =
      row.fields.countP fun field => !field.isExplicit && (g row field.column).isNone := by
  rw [unassigned, withAfter, List.getElem?_map, hj]
  simp only [Option.map_some, Option.getD_some, Row.withAfter, List.countP_map]
  rfl

theorem unassigned_of_none {g : Assignment} {j : ℕ} (hj : rows[j]? = none) :
    unassigned (withAfter rows g) j = 0 := by
  rw [unassigned, withAfter, List.getElem?_map, hj]
  rfl

theorem countP_lt {α : Type} {p q : α → Bool} {l : List α} (h : ∀ a ∈ l, p a = true → q a = true)
    {a : α} (ha : a ∈ l) (hp : p a = false) (hq : q a = true) : l.countP p < l.countP q := by
  induction l with
  | nil => simp at ha
  | cons b l ih =>
    rw [List.forall_mem_cons] at h
    rw [List.countP_cons, List.countP_cons]
    have hle := List.countP_mono_left h.2
    rcases List.mem_cons.mp ha with rfl | ha
    · simp [hp, hq]
      omega
    · have hlt := ih h.2 ha
      have hb := h.1
      cases hpb : p b
      · simp
        omega
      · simp [hb hpb]
        omega

/-- Feeding takes no assigned value away. -/
theorem feed_eq_none {constraint : Constraint} {g : Assignment} {parent child : Row}
    {column : ColumnOrdinal} (h : feed constraint g parent child column = none) :
    g child column = none := by
  unfold feed at h
  split at h
  · exact (Option.or_eq_none_iff.mp h).2
  · exact h

/-- A row whose open fields keep the values they have uses up an unassigned field with each
change. -/
theorem unassigned_feed {constraint : Constraint} {parent child : Row} {g : Assignment} {j : ℕ}
    (hj : rows[j]? = some child)
    (hone : ∀ column old value, child.isOpen column = true → g child column = some old →
      feed constraint g parent child column = some value → old = value) :
    unassigned (withAfter rows (feed constraint g parent)) j ≤ unassigned (withAfter rows g) j ∧
      ((∃ column, feed constraint g parent child column ≠ g child column) →
        unassigned (withAfter rows (feed constraint g parent)) j <
          unassigned (withAfter rows g) j) := by
  have hmono : ∀ field ∈ child.fields,
      (!field.isExplicit && (feed constraint g parent child field.column).isNone) = true →
        (!field.isExplicit && (g child field.column).isNone) = true := by
    intro field _ hfield
    simp only [Bool.and_eq_true, Option.isNone_iff_eq_none] at hfield ⊢
    exact ⟨hfield.1, feed_eq_none hfield.2⟩
  rw [unassigned_withAfter hj, unassigned_withAfter hj]
  refine ⟨List.countP_mono_left hmono, ?_⟩
  rintro ⟨column, hne⟩
  obtain ⟨-, hopen, -, value, -, -, hfeed⟩ := feed_ne hne
  -- the changed field had no value before
  have hnone : g child column = none := by
    by_contra hsome
    obtain ⟨old, hold⟩ := Option.ne_none_iff_exists'.mp hsome
    rw [hone column old value hopen hold hfeed] at hold
    exact hne (hfeed.trans hold.symm)
  obtain ⟨field, hfield, hexplicit⟩ : ∃ field, child.field column = some field ∧
      field.isExplicit = false := by
    simpa [Row.isOpen, Option.any_eq_true] using hopen
  have hcolumn := field_column hfield
  refine countP_lt hmono (List.mem_of_find?_eq_some hfield) ?_ ?_
  · simp [hcolumn, hfeed]
  · simp [hcolumn, hexplicit, hnone]

/-- An assignment opens and closes no field. -/
@[simp]
theorem isOpen_withAfter (row : Row) (after : ColumnOrdinal → Option Value)
    (column : ColumnOrdinal) : (row.withAfter after).isOpen column = row.isOpen column := by
  rw [Row.isOpen, field_withAfter, Row.isOpen, Option.any_map]

/-- The value of a field that a cascade can assign. -/
theorem assignedValue_withAfter {row : Row} {after : ColumnOrdinal → Option Value}
    {column : ColumnOrdinal} (h : row.isOpen column = true) :
    (row.withAfter after).assignedValue column = after column := by
  rw [Row.isOpen, Option.any_eq_true] at h
  obtain ⟨field, hfield, -⟩ := h
  rw [Row.assignedValue, field_withAfter, hfield, Option.map_some, Option.bind_some]
  exact congrArg after (field_column hfield)

/-- A queue item outside the rows does nothing. -/
theorem propagateStep_of_none {s : List Row} {i : ℕ} (hi : s[i]? = none) :
    propagateStep constraints s i = .ok (s, []) := by
  unfold propagateStep
  induction constraints with
  | nil => rfl
  | cons constraint rest ih =>
    have hskip : propagateConstraint i (s, []) constraint = .ok (s, []) := by
      simp only [propagateConstraint, hi]
      rfl
    rw [List.foldlM_cons, hskip]
    exact ih

/-- What the constraints `done` do with one queue item of an update. -/
structure StepFacts (constraints : List Constraint) (rows : List Row) (i : ℕ) (g g' : Assignment)
    (done : List Constraint) (pushed : List ℕ) : Prop where
  performed : propagateStep done (withAfter rows g) i = .ok (withAfter rows g', pushed)
  feeds : ∀ j ∈ pushed, Feeds constraints false rows i j
  count_le : ∀ j, pushed.count j ≤ done.length
  /-- A row no constraint changes is not pushed. -/
  quiet : ∀ j, (∀ k a b p q, propagateStep (constraints.take k) (withAfter rows g) i = .ok (a, p) →
    propagateStep (constraints.take (k + 1)) (withAfter rows g) i = .ok (b, q) → b[j]? = a[j]?) →
    j ∉ pushed
  /-- A row whose open fields are assigned one value each is pushed at most once for each of
  them. -/
  potential : ∀ j, (∀ k k' a b p q row row' column value value',
      propagateStep (constraints.take k) (withAfter rows g) i = .ok (a, p) →
      propagateStep (constraints.take k') (withAfter rows g) i = .ok (b, q) →
      a[j]? = some row → b[j]? = some row' → row.isOpen column = true →
      row.assignedValue column = some value → row'.assignedValue column = some value' →
      value = value') →
    pushed.count j + unassigned (withAfter rows g') j ≤ unassigned (withAfter rows g) j

theorem getElem?_withAfter {j : ℕ} {row : Row} (hj : rows[j]? = some row) (g : Assignment) :
    (withAfter rows g)[j]? = some (row.withAfter (g row)) := by
  rw [withAfter, List.getElem?_map, hj, Option.map_some]

/-- One queue item, from any rows of an update. -/
theorem propagateStep_update (hrows : UpdateRows constraints rows) (g : Assignment) (i : ℕ) :
    ∃ g' pushed, StepFacts constraints rows i g g' constraints pushed := by
  rcases hi : rows[i]? with _ | parent
  · have hnone : (withAfter rows g)[i]? = none := by
      rw [withAfter, List.getElem?_map, hi, Option.map_none]
    exact ⟨g, [], propagateStep_of_none hnone, by simp, by simp, by simp, by simp⟩
  · refine (propagateStep_induction hrows hi g
      (fun done g' pushed => StepFacts constraints rows i g g' done pushed)
      ⟨rfl, by simp, by simp, by simp, by simp⟩ ?_).imp fun g' h => h.imp fun pushed h => h.2
    intro done constraint rest g' queue pushed hsplit hfacts hstep hnodup hpushed
    have hconstraint : constraint ∈ constraints := by
      rw [hsplit]
      exact List.mem_append_right _ List.mem_cons_self
    -- the moments before and after the constraint
    have hbefore : constraints.take done.length = done := by
      rw [hsplit, List.take_left]
    have hafter : constraints.take (done.length + 1) = done ++ [constraint] := by
      rw [hsplit, List.append_cons, List.take_left' (by simp)]
    have hperformed : propagateStep (done ++ [constraint]) (withAfter rows g) i =
        .ok (withAfter rows (feed constraint g' parent), queue ++ pushed) := by
      rw [propagateStep, List.foldlM_append]
      have hdone := hfacts.performed
      rw [propagateStep] at hdone
      rw [hdone]
      change [constraint].foldlM (propagateConstraint i) (withAfter rows g', queue) = _
      rw [List.foldlM_cons, hstep]
      rfl
    refine ⟨hperformed, fun j hj => ?_, fun j => ?_, fun j hquiet => ?_, fun j hone => ?_⟩
    · rcases List.mem_append.mp hj with hj | hj
      · exact hfacts.feeds j hj
      · obtain ⟨child, hchild, column, hne⟩ := (hpushed j).mp hj
        obtain ⟨hfires, -⟩ := feed_ne hne
        simp only [fires, Bool.and_eq_true] at hfires
        exact ⟨constraint, hconstraint, hfires.1.1, parent, child, hi, hchild, hfires.1.2⟩
    · rw [List.count_append, List.length_append, List.length_singleton]
      have honce := List.nodup_iff_count_le_one.mp hnodup j
      have hbound := hfacts.count_le j
      omega
    · rw [List.mem_append, not_or]
      refine ⟨hfacts.quiet j hquiet, fun hj => ?_⟩
      obtain ⟨child, hchild, column, hne⟩ := (hpushed j).mp hj
      have hsame := hquiet done.length _ _ _ _ (hbefore ▸ hfacts.performed) (hafter ▸ hperformed)
      rw [getElem?_withAfter hchild, getElem?_withAfter hchild, Option.some.injEq] at hsame
      have hopen := (feed_ne hne).2.1
      have hvalue := congrArg (fun row => row.assignedValue column) hsame
      simp only [assignedValue_withAfter hopen] at hvalue
      exact hne hvalue
    · rw [List.count_append]
      have hbound := hfacts.potential j hone
      rcases hj : rows[j]? with _ | child
      · have hnot : j ∉ pushed := fun hin => by
          obtain ⟨child, hchild, -⟩ := (hpushed j).mp hin
          rw [hj] at hchild
          cases hchild
        rw [List.count_eq_zero_of_not_mem hnot, unassigned_of_none hj]
        omega
      · obtain ⟨hle, hlt⟩ := @unassigned_feed rows constraint parent child g' j hj
          fun column old value hopen hold hvalue => by
            refine hone done.length (done.length + 1) _ _ _ _ _ _ column old value
              (hbefore ▸ hfacts.performed) (hafter ▸ hperformed) (getElem?_withAfter hj _)
              (getElem?_withAfter hj _) ?_ ?_ ?_
            · rwa [isOpen_withAfter]
            · rwa [assignedValue_withAfter hopen]
            · rwa [assignedValue_withAfter hopen]
        by_cases hin : j ∈ pushed
        · obtain ⟨child', hchild', hne⟩ := (hpushed j).mp hin
          rw [hj, Option.some.injEq] at hchild'
          subst hchild'
          have honce := List.nodup_iff_count_le_one.mp hnodup j
          have hdrop := hlt hne
          omega
        · rw [List.count_eq_zero_of_not_mem hin]
          omega

/-- The rows of an update before anything is propagated. -/
theorem eq_withAfter_assignedValue (hrows : UpdateRows constraints rows) :
    rows = withAfter rows Row.assignedValue := by
  refine (List.map_id rows).symm.trans (List.map_congr_left fun row hrow => ?_)
  exact (withAfter_assignedValue (hrows.columns_nodup row hrow)).symm

/-- The worklist of an update ends when, from some queue item on, every push of a row on a cycle
uses up potential of the row. -/
theorem propagate_ends_of_potential (hrows : UpdateRows constraints rows) {selected : ℕ}
    (hselected : selected < rows.length) (n : ℕ) (potential : List Row → ℕ → ℕ)
    (hpotential : ∀ m ≥ n, ∀ s i rest, Worklist.advance (propagateStep constraints) m rows
        [selected] = .ok (some (s, i :: rest)) → ∀ g g' pushed, s = withAfter rows g →
      StepFacts constraints rows i g g' constraints pushed →
      ∀ j, Worklist.OnCycle (Feeds constraints false rows) j →
        pushed.count j + potential (withAfter rows g') j ≤ potential (withAfter rows g) j) :
    ∃ fuel final, propagate constraints fuel rows selected = .ok (some final) := by
  -- first `n` items, and then the termination rule
  rcases @Worklist.exists_advance _ _ _ (propagateStep constraints)
    (fun s queue => (∃ g, s = withAfter rows g) ∧ ∀ q ∈ queue, q ∈ Finset.range rows.length)
    (by
      rintro _ i rest ⟨⟨g, rfl⟩, hqueue⟩
      obtain ⟨g', pushed, hfacts⟩ := propagateStep_update hrows g i
      refine ⟨_, pushed, hfacts.performed, ⟨g', rfl⟩, fun q hq => ?_⟩
      rcases List.mem_append.mp hq with hq | hq
      · exact hqueue q (List.mem_cons_of_mem i hq)
      · obtain ⟨-, -, -, -, child, -, hchild, -⟩ := hfacts.feeds q hq
        exact Finset.mem_range.mpr (List.getElem?_eq_some_iff.mp hchild).1)
    rows [selected] ⟨⟨_, eq_withAfter_assignedValue hrows⟩, by simpa using hselected⟩ n with
    ⟨final, hfinal⟩ | ⟨s, queue, hadvance, hs, hqueue⟩
  · exact ⟨n, final, hfinal⟩
  obtain ⟨fuel, final, hfinal⟩ := @Worklist.exists_run_ok _ _ _ (propagateStep constraints)
    (Finset.range rows.length) (Feeds constraints false rows) _ constraints.length potential
    (fun s queue => (∃ g, s = withAfter rows g) ∧ ∃ m ≥ n,
      Worklist.advance (propagateStep constraints) m rows [selected] = .ok (some (s, queue)))
    (by
      rintro _ i rest s' pushed ⟨⟨g, rfl⟩, m, hm, hadvance⟩ hstep
      obtain ⟨g', pushed', hfacts⟩ := propagateStep_update hrows g i
      rw [hfacts.performed] at hstep
      cases hstep
      exact ⟨⟨g', rfl⟩, m + 1, by omega, Worklist.advance_succ hadvance hfacts.performed⟩)
    (by
      rintro _ i rest ⟨⟨g, rfl⟩, -⟩
      obtain ⟨g', pushed, hfacts⟩ := propagateStep_update hrows g i
      exact ⟨_, hfacts.performed⟩)
    (by
      rintro _ i rest s' pushed ⟨⟨g, rfl⟩, -⟩ hstep q hq
      obtain ⟨g', pushed', hfacts⟩ := propagateStep_update hrows g i
      rw [hfacts.performed] at hstep
      cases hstep
      obtain ⟨-, -, -, -, child, -, hchild, -⟩ := hfacts.feeds q hq
      exact Finset.mem_range.mpr (List.getElem?_eq_some_iff.mp hchild).1)
    (by
      rintro _ i rest s' pushed ⟨⟨g, rfl⟩, -⟩ hstep
      obtain ⟨g', pushed', hfacts⟩ := propagateStep_update hrows g i
      rw [hfacts.performed] at hstep
      cases hstep
      exact hfacts.feeds)
    (by
      rintro _ i rest s' pushed ⟨⟨g, rfl⟩, -⟩ hstep
      obtain ⟨g', pushed', hfacts⟩ := propagateStep_update hrows g i
      rw [hfacts.performed] at hstep
      cases hstep
      exact hfacts.count_le)
    (by
      rintro _ i rest s' pushed ⟨⟨g, rfl⟩, m, hm, hadvance⟩ hstep
      obtain ⟨g', pushed', hfacts⟩ := propagateStep_update hrows g i
      rw [hfacts.performed] at hstep
      cases hstep
      exact hpotential m hm _ i rest hadvance g g' _ rfl hfacts)
    _ _ ⟨hs, n, le_rfl, hadvance⟩ hqueue
  exact ⟨n + fuel, final, (Worklist.run_add hadvance).trans hfinal⟩

/-- The worklist of an update ends exactly when rows on cycles stop changing. -/
theorem propagate_ends_iff (hrows : UpdateRows constraints rows) {selected : ℕ}
    (hselected : selected < rows.length) :
    (∃ fuel final, propagate constraints fuel rows selected = .ok (some final)) ↔
      SettlesOnCycles constraints rows selected := by
  constructor
  · rintro ⟨fuel, final, hfinal⟩
    refine ⟨fuel + 1, fun m hm k a b hmoment => ?_⟩
    -- no item is performed behind the end
    obtain ⟨before, position, rest, pushed, hadvance, -⟩ := hmoment
    have hle := Worklist.le_of_run hfinal hadvance
    exact absurd hle (by omega)
  · rintro ⟨n, hsettles⟩
    refine propagate_ends_of_potential hrows hselected n (fun _ _ => 0) ?_
    rintro m hm _ i rest hadvance g g' pushed rfl hfacts j hcycle
    have hquiet := hfacts.quiet j fun k a b p q ha hb => hsettles m hm k a b
      ⟨_, i, rest, p, hadvance, ha⟩ ⟨_, i, rest, q, hadvance, hb⟩ j hcycle
    rw [List.count_eq_zero_of_not_mem hquiet]

/-- The worklist of an update ends when no field on a cycle is assigned two values. -/
theorem propagate_ends_of_oneValue (hrows : UpdateRows constraints rows) {selected : ℕ}
    (hselected : selected < rows.length) (hone : OneValueOnCycles constraints rows selected) :
    ∃ fuel final, propagate constraints fuel rows selected = .ok (some final) := by
  refine propagate_ends_of_potential hrows hselected 0 unassigned ?_
  rintro m - _ i rest hadvance g g' pushed rfl hfacts j hcycle
  exact hfacts.potential j fun k k' a b p q row row' column value value' ha hb =>
    hone j hcycle m k m k' a b row row' column value value' ⟨_, i, rest, p, hadvance, ha⟩
      ⟨_, i, rest, q, hadvance, hb⟩

/-! ## Values held together -/

/-- The values the fields of a row can be assigned together: those of the request, and what a parent
that holds such values hands to a child that does. A parent hands down all columns of its key. -/
inductive Held (constraints : List Constraint) (rows : List Row) :
    Row → (ColumnOrdinal → Option Value) → Prop
  | request {row} : row ∈ rows → Held constraints rows row row.assignedValue
  | handed {constraint parent child} {g : Assignment} : constraint ∈ constraints → parent ∈ rows →
      child ∈ rows → fires constraint g parent child = true →
      Held constraints rows parent (g parent) →
      Held constraints rows child (g child) →
      Held constraints rows child (feed constraint g parent child)

/-- Handing a value keeps fields held. -/
theorem held_feed {constraint : Constraint} (hconstraint : constraint ∈ constraints) {parent : Row}
    (hparent : parent ∈ rows) {g : Assignment}
    (h : ∀ row ∈ rows, Held constraints rows row (g row)) :
    ∀ row ∈ rows, Held constraints rows row (feed constraint g parent row) := by
  intro child hchild
  rcases hfires : fires constraint g parent child with _ | _
  · rw [feed_of_not_fires hfires]
    exact h child hchild
  · exact .handed hconstraint hparent hchild hfires (h parent hparent) (h child hchild)

/-- One queue item, or the first constraints of one, leaves values that can be held. -/
theorem propagateStep_held (hrows : UpdateRows constraints rows) {g : Assignment}
    (h : ∀ row ∈ rows, Held constraints rows row (g row)) (k i : ℕ) :
    ∃ g' pushed, propagateStep (constraints.take k) (withAfter rows g) i =
      .ok (withAfter rows g', pushed) ∧ ∀ row ∈ rows, Held constraints rows row (g' row) := by
  have hsubset : constraints.take k ⊆ constraints := List.take_subset k constraints
  have htake : UpdateRows (constraints.take k) rows :=
    { hrows with encodes := fun constraint hconstraint =>
        hrows.encodes constraint (hsubset hconstraint) }
  rcases hi : rows[i]? with _ | parent
  · refine ⟨g, [], propagateStep_of_none ?_, h⟩
    rw [withAfter, List.getElem?_map, hi, Option.map_none]
  · refine propagateStep_induction htake hi g
      (fun _ g' _ => ∀ row ∈ rows, Held constraints rows row (g' row)) h ?_
    intro done constraint rest g' queue pushed hsplit hheld _ _ _
    refine held_feed (hsubset ?_) (List.mem_of_getElem? hi) hheld
    rw [hsplit]
    exact List.mem_append_right _ List.mem_cons_self

/-- At every moment of a run the rows hold values that they can hold together. -/
theorem Moment.held (hrows : UpdateRows constraints rows) {selected n k : ℕ} {s : List Row}
    (h : Moment constraints rows selected n k s) :
    ∃ g, s = withAfter rows g ∧ ∀ row ∈ rows, Held constraints rows row (g row) := by
  obtain ⟨before, position, rest, pushed, hadvance, hstep⟩ := h
  rcases @Worklist.exists_advance _ _ _ (propagateStep constraints)
    (fun s _ => ∃ g, s = withAfter rows g ∧ ∀ row ∈ rows, Held constraints rows row (g row))
    (by
      rintro _ i _ ⟨g, rfl, hheld⟩
      obtain ⟨g', pushed, hok, hheld'⟩ := propagateStep_held hrows hheld constraints.length i
      rw [List.take_length] at hok
      exact ⟨_, pushed, hok, g', rfl, hheld'⟩)
    rows [selected] ⟨_, eq_withAfter_assignedValue hrows, fun row hrow => .request hrow⟩ n with
    ⟨final, hfinal⟩ | ⟨s', queue, hadvance', hs'⟩
  · -- a run that has ended has no next item
    rw [← Nat.add_zero n, Worklist.run_add hadvance, Worklist.run_zero_cons] at hfinal
    cases hfinal
  · rw [hadvance] at hadvance'
    obtain ⟨rfl, rfl⟩ := Prod.mk.inj (Option.some.inj (Except.ok.inj hadvance'))
    obtain ⟨g, rfl, hheld⟩ := hs'
    obtain ⟨g', pushed', hok, hheld'⟩ := propagateStep_held hrows hheld k position
    rw [hstep] at hok
    obtain ⟨rfl, -⟩ := Prod.mk.inj (Except.ok.inj hok)
    exact ⟨g', rfl, hheld'⟩

/-- Where the values that rows on cycles can hold do not differ, no field of them is assigned two
values. -/
theorem oneValueOnCycles_of_held (hrows : UpdateRows constraints rows) {selected : ℕ}
    (h : ∀ j row, rows[j]? = some row → Worklist.OnCycle (Feeds constraints false rows) j →
      ∀ column after after' value value', Held constraints rows row after →
        Held constraints rows row after' → row.isOpen column = true →
        after column = some value → after' column = some value' → value = value') :
    OneValueOnCycles constraints rows selected := by
  intro j hcycle n k n' k' a b row row' column value value' ha hb hrow hrow' hopen hvalue hvalue'
  obtain ⟨g, rfl, hheld⟩ := ha.held hrows
  obtain ⟨g', rfl, hheld'⟩ := hb.held hrows
  rw [withAfter, List.getElem?_map, Option.map_eq_some_iff] at hrow hrow'
  obtain ⟨loaded, hloaded, rfl⟩ := hrow
  obtain ⟨loaded', hloaded', rfl⟩ := hrow'
  obtain rfl := Option.some.inj (hloaded.symm.trans hloaded')
  rw [isOpen_withAfter] at hopen
  rw [assignedValue_withAfter hopen] at hvalue hvalue'
  have hmem := List.mem_of_getElem? hloaded
  exact h j loaded hloaded hcycle column _ _ value value' (hheld loaded hmem)
    (hheld' loaded hmem) hopen hvalue hvalue'

end Update

/-- The worklist of a change reaches its end. -/
def Ends (constraints : List Constraint) (start : List Row) (selected : ℕ) : Prop :=
  ∃ fuel final, propagate constraints fuel start selected = .ok (some final)

/-- Cascades terminate, without any resource budget: the worklist of every deletion reaches its end;
that of an update does exactly when from some queue item on no row on a cycle of tied rows changes,
and so in particular when no field of such a row is assigned two different values. -/
theorem propagate_terminates {autoIncrement : ColumnOrdinal → Bool} {target : PageNumber}
    {change : Change} {constraints : List Constraint} {rows start : List Row} {selected : ℕ}
    (hrows : Snapshots rows) (hbefore : validate rows constraints false = .ok ())
    (hselect : select autoIncrement target change rows = .ok (start, selected)) :
    (change.isDelete = true → Ends constraints start selected) ∧
    (change.isDelete = false →
      (Ends constraints start selected ↔ SettlesOnCycles constraints start selected) ∧
      (OneValueOnCycles constraints start selected → Ends constraints start selected)) := by
  have hencodes : Encodes constraints rows := validate_before hbefore
  refine ⟨fun hdelete => ?_, fun hdelete => ?_⟩
  · cases change with
    | delete locator =>
      obtain ⟨hlt, rfl⟩ := select_delete hrows.fresh hselect
      exact propagate_delete_ends hrows.fresh hencodes hlt _
    | _ => simp [Change.isDelete] at hdelete
  · obtain ⟨hlt, hstart⟩ := select_update hrows hencodes hdelete hselect
    exact ⟨propagate_ends_iff hstart.updates hlt, propagate_ends_of_oneValue hstart.updates hlt⟩

/-- An update-cascading relationship between two long-integer columns. -/
def updatingConstraint (parent : PageNumber) (parentColumn : ColumnOrdinal) (child : PageNumber)
    (childColumn : ColumnOrdinal) : Constraint :=
  .ofLong { updates := true, deletes := false } parent parentColumn child childColumn

/-- A field that is assigned. -/
def assignedField (column : ColumnOrdinal) (old new : Int32) (isExplicit : Bool) : Field where
  column := column
  before := ⟨.long old, Row.isScalar_long old⟩
  after := some ⟨.long new, Row.isScalar_long new⟩
  isExplicit := isExplicit

/-! ## A ring of composite keys -/

/-- The columns of a composite key. -/
def pairColumns : List ColumnOrdinal := [0, 1]

/-- Keys of two numbers. -/
def pairKinds : List ScalarKeyType := [.long, .long]

/-- A constraint without the flag may reference any table. -/
theorem not_selfReference {parent child : PageNumber} (h : false = true) : parent = child :=
  absurd h Bool.false_ne_true

/-- An update-cascading relationship between keys of two long-integer columns. -/
def keyConstraint (parent child : PageNumber) : Constraint where
  flags := { updates := true, deletes := false }
  parent := parent
  child := child
  parentColumns := pairColumns
  childColumns := pairColumns
  parentKinds := pairKinds
  childKinds := pairKinds
  selfReferenceRequiresExistingParent := false
  selfReference := not_selfReference

/-- Three tables whose keys reference each other in a ring. -/
def keyRingConstraints : List Constraint :=
  [keyConstraint 10 20, keyConstraint 20 30, keyConstraint 30 10]

/-- One row of each table of the ring. -/
def keyRingRows : List Row := [.ofLongs 10 0 [1, 1], .ofLongs 20 0 [1, 1], .ofLongs 30 0 [1, 1]]

/-- The rows with another key assigned to the first one. -/
def keyRingStart : List Row :=
  [{ Row.ofLongs 10 0 [] with fields := [assignedField 0 1 2 true, assignedField 1 1 5 true] },
    .ofLongs 20 0 [1, 1], .ofLongs 30 0 [1, 1]]

/-- Both columns of a row are open, or neither is. -/
theorem keyRing_columns {row : Row} (h : row ∈ keyRingStart) :
    row.fields.map Field.column = [0, 1] ∧ row.isOpen 0 = row.isOpen 1 := by
  simp only [keyRingStart, List.mem_cons, List.not_mem_nil, or_false] at h
  rcases h with rfl | rfl | rfl <;> exact ⟨rfl, rfl⟩

/-- The rows of the ring hold the whole new key, or none of it. -/
theorem held_keyRing {row : Row} {after : ColumnOrdinal → Option Value}
    (h : Held keyRingConstraints keyRingStart row after) :
    (after 0 = none ∧ after 1 = none) ∨
      (after 0 = some ⟨.long 2, rfl⟩ ∧ after 1 = some ⟨.long 5, rfl⟩) := by
  induction h with
  | request hrow =>
    simp only [keyRingStart, List.mem_cons, List.not_mem_nil, or_false] at hrow
    rcases hrow with rfl | rfl | rfl
    · exact .inr ⟨rfl, rfl⟩
    · exact .inl ⟨rfl, rfl⟩
    · exact .inl ⟨rfl, rfl⟩
  | @handed constraint parent child g hconstraint hparent hchild hfires _ _ ihparent ihchild =>
    have hcolumns : constraint.parentColumns = [0, 1] ∧ constraint.childColumns = [0, 1] := by
      simp only [keyRingConstraints, List.mem_cons, List.not_mem_nil, or_false] at hconstraint
      rcases hconstraint with rfl | rfl | rfl <;> exact ⟨rfl, rfl⟩
    have hassigned : (g parent 0).isSome ∨ (g parent 1).isSome := by
      simp only [fires, Bool.and_eq_true, hcolumns.1] at hfires
      simpa using hfires.2
    obtain ⟨hzero, hone⟩ : g parent 0 = some ⟨.long 2, rfl⟩ ∧ g parent 1 = some ⟨.long 5, rfl⟩ := by
      rcases ihparent with ⟨hzero, hone⟩ | hboth
      · simp [hzero, hone] at hassigned
      · exact hboth
    -- the parent hands down both columns of the key, and the child takes both or neither
    have hcurrent {column : ColumnOrdinal} {value : Value} (hmem : column ∈ [0, 1])
        (hvalue : g parent column = some value) : current g parent column = some value := by
      obtain ⟨field, -, hfield⟩ := exists_field rfl ((keyRing_columns hparent).1.symm ▸ hmem)
      rw [current, hfield, hvalue]
      rfl
    have hzero' : sent constraint g parent 0 = some ⟨.long 2, rfl⟩ := by
      rw [sent, hcolumns.1, hcolumns.2]
      exact hcurrent (by simp) hzero
    have hone' : sent constraint g parent 1 = some ⟨.long 5, rfl⟩ := by
      rw [sent, hcolumns.1, hcolumns.2]
      exact hcurrent (by simp) hone
    unfold feed
    rw [hfires, hzero', hone', ← (keyRing_columns hchild).2]
    rcases child.isOpen 0 with _ | _
    · exact ihchild
    · exact .inr ⟨rfl, rfl⟩

/-- The new key runs around the ring and ends where it began. -/
theorem propagate_terminates_keyRing :
    (∀ j < 3, Worklist.OnCycle (Feeds keyRingConstraints false keyRingStart) j) ∧
      SettlesOnCycles keyRingConstraints keyRingStart 0 ∧
      Ends keyRingConstraints keyRingStart 0 := by
  obtain ⟨⟨⟩, hbefore⟩ : ∃ u, validate keyRingRows keyRingConstraints false = .ok u :=
    exists_ok (by decide +kernel)
  have hselect : select (fun _ => false) 10 (.replace { page := 11, slot := 0 } [.long 2, .long 5])
      keyRingRows = .ok (keyRingStart, 0) := by decide +kernel
  have hrows : Snapshots keyRingRows :=
    { fresh := by simp [Fresh, keyRingRows, Row.ofLongs]
      columns_nodup := by simp [keyRingRows, Row.ofLongs] }
  have hupdates : UpdateRows keyRingConstraints keyRingStart :=
    (select_update hrows (validate_before hbefore) rfl hselect).2.updates
  obtain ⟨hsettles, hends⟩ := (propagate_terminates hrows hbefore hselect).2 rfl
  -- every column is given the value that the first row got
  have hone : OneValueOnCycles keyRingConstraints keyRingStart 0 := by
    refine oneValueOnCycles_of_held hupdates ?_
    intro j row hj _ column after after' value value' hafter hafter' hopen hvalue hvalue'
    have hcolumn : column ∈ [0, 1] := by
      rw [Row.isOpen, Option.any_eq_true] at hopen
      obtain ⟨field, hfield, -⟩ := hopen
      rw [← (keyRing_columns (List.mem_of_getElem? hj)).1, ← field_column hfield]
      exact List.mem_map_of_mem (List.mem_of_find?_eq_some hfield)
    have hvalues := held_keyRing hafter
    have hvalues' := held_keyRing hafter'
    rcases List.mem_pair.mp hcolumn with rfl | rfl <;> grind
  refine ⟨fun j hj => ?_, hsettles.mp (hends hone), hends hone⟩
  have hfirst : Feeds keyRingConstraints false keyRingStart 0 1 :=
    ⟨keyConstraint 10 20, by simp [keyRingConstraints], rfl, _, _, rfl, rfl, by decide +kernel⟩
  have hsecond : Feeds keyRingConstraints false keyRingStart 1 2 :=
    ⟨keyConstraint 20 30, by simp [keyRingConstraints], rfl, _, _, rfl, rfl, by decide +kernel⟩
  have hthird : Feeds keyRingConstraints false keyRingStart 2 0 :=
    ⟨keyConstraint 30 10, by simp [keyRingConstraints], rfl, _, _, rfl, rfl, by decide +kernel⟩
  -- each of the three feeds the next one
  interval_cases j
  · exact ((Relation.TransGen.single hfirst).tail hsecond).tail hthird
  · exact ((Relation.TransGen.single hsecond).tail hthird).tail hfirst
  · exact ((Relation.TransGen.single hthird).tail hfirst).tail hsecond

/-! ## A ring of tables -/

/-- A row whose two key columns feed a ring of three tables: the first directly, the second
through another row. -/
def ringRows : List Row :=
  [.ofLongs 10 0 [1, 1], .ofLongs 20 0 [1], .ofLongs 30 0 [1], .ofLongs 40 0 [1], .ofLongs 50 0 [1]]

/-- A ring of three tables, entered from a row that hands two values into it. -/
def ringConstraints : List Constraint :=
  [updatingConstraint 10 0 30 0, updatingConstraint 10 1 20 0, updatingConstraint 20 0 30 0,
    updatingConstraint 30 0 40 0, updatingConstraint 40 0 50 0, updatingConstraint 50 0 30 0]

/-- Replaces the two key columns of the first row by different values. -/
def ringChange : Change := .replace { page := 11, slot := 0 } [.long 2, .long 3]

/-- The rows are snapshots. -/
theorem snapshots_ringRows : Snapshots ringRows where
  fresh := by simp [Fresh, ringRows, Row.ofLongs]
  columns_nodup := by simp [ringRows, Row.ofLongs]

/-- The two values chase each other around the ring: the update of the first row is accepted, and
its worklist never ends. -/
theorem propagate_ring_never_ends :
    ¬∀ (autoIncrement : ColumnOrdinal → Bool) (target : PageNumber) (change : Change)
      (constraints : List Constraint) (rows start : List Row) (selected : ℕ), Snapshots rows →
      validate rows constraints false = .ok () →
      select autoIncrement target change rows = .ok (start, selected) →
      ∃ fuel final, propagate constraints fuel start selected = .ok (some final) := by
  intro hends
  obtain ⟨⟨⟩, hbefore⟩ : ∃ u, validate ringRows ringConstraints false = .ok u :=
    exists_ok (by decide +kernel)
  obtain ⟨⟨start, selected⟩, hselect⟩ :
      ∃ result, select (fun _ => false) 10 ringChange ringRows = .ok result :=
    exists_ok (by decide +kernel)
  obtain ⟨fuel, final, hfinal⟩ := hends _ _ _ _ _ _ _ snapshots_ringRows hbefore hselect
  -- after four steps the run has come to a state that returns every six steps
  have hreturn : ∀ result, select (fun _ => false) 10 ringChange ringRows = .ok result →
      ((Worklist.advance (propagateStep ringConstraints) 4 result.1 [result.2]).toOption.join.isSome
        && Worklist.advance (propagateStep ringConstraints) (4 + (5 + 1)) result.1 [result.2] ==
          Worklist.advance (propagateStep ringConstraints) 4 result.1 [result.2]) = true :=
    forall_ok (by decide +kernel)
  obtain ⟨hreached, hagain⟩ := Bool.and_eq_true_iff.mp (hreturn _ hselect)
  obtain ⟨⟨reached, queue⟩, hreached⟩ := exists_ok_some hreached
  rw [propagate, Worklist.run_eq_none_of_returns hreached ((eq_of_beq hagain).trans hreached)]
    at hfinal
  simp at hfinal

end Cascade

end Jet3
