import Jet3.Relationship.CascadeTermination
import Mathlib.Data.Finite.Prod

/-!
# Children and their parents in an update

A cascade overwrites the fields of a child by the current values of the tied parents that were
assigned. Where these hand a field one value, it holds that value in the end, whatever the order of
the worklist. Where they hand it several, the last one wins.

* `Hands` says what an update hands down, on the rows of its plan;
* `Settled` is what holds of the assigned values once the queue is empty;
* `Settled.eq_of_acyclic` and `Settled.eq_of_origins` say when it determines them;
* `prepare_keeps_parents` states what an accepted update keeps, and `prepare_diamond_follows_order`
  what it does not.
-/

namespace Jet3

open Outcome Lookup

namespace Cascade

/-! ## Plans -/

/-- The value of a field once the change is applied. -/
def Row.current (row : Row) (column : ColumnOrdinal) : Option Value :=
  (row.field column).map Field.current

/-- The value of a field before the change. -/
def Row.before (row : Row) (column : ColumnOrdinal) : Option Value :=
  (row.field column).map Field.before

/-- In the plan, a parent whose key is assigned hands the value of a key column to a child it is
tied to, which does not assign the field itself. -/
structure Hands (constraints : List Constraint) (plan : List Row) (constraint : Constraint)
    (parent child : Row) (column parentColumn : ColumnOrdinal) : Prop where
  constraint_mem : constraint ∈ constraints
  updates : constraint.flags.updates = true
  parent_mem : parent ∈ plan
  child_mem : child ∈ plan
  ties : ties constraint parent child = true
  assigned : parent.assigned constraint.parentColumns = true
  column_mem : (column, parentColumn) ∈ constraint.childColumns.zip constraint.parentColumns
  isOpen : child.isOpen column = true

/-- The value is handed to the field. -/
def Handed (constraints : List Constraint) (plan : List Row) (child : Row)
    (column : ColumnOrdinal) (value : Value) : Prop :=
  ∃ constraint parent parentColumn,
    Hands constraints plan constraint parent child column parentColumn ∧
      parent.current parentColumn = some value

/-- The field is not handed two different values. -/
def OneHanded (constraints : List Constraint) (plan : List Row) (child : Row)
    (column : ColumnOrdinal) : Prop :=
  ∀ value value', Handed constraints plan child column value →
    Handed constraints plan child column value' → value = value'

/-- No field is handed two different values. -/
def Consistent (constraints : List Constraint) (plan : List Row) : Prop :=
  ∀ child column, OneHanded constraints plan child column

/-- The first field is handed to the second. -/
def Source (constraints : List Constraint) (plan : List Row) (source cell : Row × ColumnOrdinal) :
    Prop :=
  ∃ constraint, Hands constraints plan constraint source.1 cell.1 cell.2 source.2

/-- Every field goes back, from source to source, to one that is handed nothing. -/
def HasOrigins (constraints : List Constraint) (plan : List Row) : Prop :=
  ∀ child ∈ plan, ∀ column, ∃ origin,
    Relation.ReflTransGen (Source constraints plan) origin (child, column) ∧
      ∀ source, ¬Source constraints plan source origin

/-- What the child's key columns are handed, or else hold, is what the parent holds. -/
def Follows (constraints : List Constraint) (plan : List Row) (constraint : Constraint)
    (parent child : Row) : Prop :=
  ∀ column parentColumn, (column, parentColumn) ∈
      constraint.childColumns.zip constraint.parentColumns →
    (∀ value, Handed constraints plan child column value →
      parent.current parentColumn = some value) ∧
    ((∀ value, ¬Handed constraints plan child column value) →
      parent.current parentColumn = child.before column)

/-- The parent's key is not assigned, and what the child's key columns are handed they hold. -/
def Stays (constraints : List Constraint) (plan : List Row) (constraint : Constraint)
    (parent child : Row) : Prop :=
  parent.assigned constraint.parentColumns = false ∧
    ∀ column ∈ constraint.childColumns, ∀ value, Handed constraints plan child column value →
      child.before column = some value

/-- After the change the row at `j` holds the key of the row at `i`. -/
def HoldsKeyOf (constraint : Constraint) (plan : List Row) (i j : ℕ) : Prop :=
  ∃ parent child parentKey childKey, plan[i]? = some parent ∧ plan[j]? = some child ∧
    Row.key parent constraint.parentColumns constraint.parentKinds true = .ok parentKey ∧
    Row.key child constraint.childColumns constraint.childKinds true = .ok childKey ∧
    equal parentKey childKey = true

/-- `HoldsKeyOf`, computed. -/
def holdsKeyOf (constraint : Constraint) (plan : List Row) (i j : ℕ) : Bool :=
  plan[i]?.any fun parent => plan[j]?.any fun child =>
    (Row.key parent constraint.parentColumns constraint.parentKinds true).toOption.any
      fun parentKey =>
      (Row.key child constraint.childColumns constraint.childKinds true).toOption.any
        fun childKey =>
        equal parentKey childKey

/-- A child that holds the key of a parent is found to do so. -/
theorem HoldsKeyOf.holdsKeyOf {constraint : Constraint} {plan : List Row} {i j : ℕ}
    (h : HoldsKeyOf constraint plan i j) : holdsKeyOf constraint plan i j = true := by
  obtain ⟨parent, child, parentKey, childKey, hi, hj, hparentKey, hchildKey, hequal⟩ := h
  simp only [Cascade.holdsKeyOf, hi, hj, hparentKey, hchildKey, Except.toOption, Option.any_some,
    hequal]

/-! ## Fields in the course of a run -/

/-- With `g` assigned, a parent hands a key column to a child. -/
structure Feeding (constraints : List Constraint) (rows : List Row) (g : Assignment)
    (constraint : Constraint) (parent child : Row) (column parentColumn : ColumnOrdinal) :
    Prop where
  constraint_mem : constraint ∈ constraints
  parent_mem : parent ∈ rows
  child_mem : child ∈ rows
  fires : fires constraint g parent child = true
  column_mem : (column, parentColumn) ∈ constraint.childColumns.zip constraint.parentColumns
  isOpen : child.isOpen column = true

section Cell

variable {constraints : List Constraint} {rows : List Row} {constraint : Constraint}
  {parent child : Row} {column parentColumn : ColumnOrdinal} {g : Assignment}

/-- The parent column of a child column. -/
theorem lookup_columns
    (hpair : (column, parentColumn) ∈ constraint.childColumns.zip constraint.parentColumns) :
    (constraint.childColumns.zip constraint.parentColumns).lookup column = some parentColumn := by
  refine (lookup_eq_some_iff ?_).mpr hpair
  rw [List.map_fst_zip constraint.childColumns_length.le]
  exact constraint.childColumns_nodup

/-- A parent that hands something has the key fields of the constraint. -/
theorem exists_parentField (hrows : UpdateRows constraints rows)
    (hconstraint : constraint ∈ constraints) (hparent : parent ∈ rows)
    (hties : ties constraint parent child = true) :
    ∀ column ∈ constraint.parentColumns, ∃ field, parent.field column = some field := by
  simp only [ties, Bool.and_eq_true, beq_iff_eq] at hties
  obtain ⟨key, hkey⟩ := (hrows.encodes constraint hconstraint parent hparent).1 hties.1.1
  exact exists_field_of_key hkey

/-- A constraint that hands something ties the two rows. -/
theorem ties_of_fires (h : fires constraint g parent child = true) :
    ties constraint parent child = true := by
  simp only [fires, Bool.and_eq_true] at h
  exact h.1.2

/-- What is handed is the current value of the parent. -/
theorem Feeding.exists_current (hrows : UpdateRows constraints rows)
    (h : Feeding constraints rows g constraint parent child column parentColumn) :
    ∃ value, current g parent parentColumn = some value := by
  obtain ⟨field, hfield⟩ := exists_parentField hrows h.constraint_mem h.parent_mem
    (ties_of_fires h.fires) parentColumn (List.of_mem_zip h.column_mem).2
  exact ⟨_, by rw [current, hfield, Option.map_some]⟩

/-- A field that is fed gets the value of the parent. -/
theorem Feeding.feed_eq (hrows : UpdateRows constraints rows)
    (h : Feeding constraints rows g constraint parent child column parentColumn) :
    feed constraint g parent child column = current g parent parentColumn := by
  obtain ⟨value, hvalue⟩ := h.exists_current hrows
  rw [feed, h.fires, h.isOpen, Bool.and_self, if_pos rfl, sent, lookup_columns h.column_mem,
    Option.bind_some, hvalue, Option.some_or]

/-- A changed field is handed its value. -/
theorem feeding_of_feed_ne (hconstraint : constraint ∈ constraints) (hparent : parent ∈ rows)
    (hchild : child ∈ rows) (h : feed constraint g parent child column ≠ g child column) :
    ∃ parentColumn, Feeding constraints rows g constraint parent child column parentColumn := by
  obtain ⟨hfires, hopen, parentColumn, -, hpair, -⟩ := feed_ne h
  exact ⟨parentColumn, hconstraint, hparent, hchild, hfires, hpair, hopen⟩

/-- Feeding lets no constraint stop firing. -/
theorem fires_of_feed {other : Constraint} {feeder : Row}
    (h : fires constraint g parent child = true) :
    fires constraint (feed other g feeder) parent child = true := by
  simp only [fires, Bool.and_eq_true, List.any_eq_true] at h ⊢
  obtain ⟨hties, column, hmem, hassigned⟩ := h
  refine ⟨hties, column, hmem, ?_⟩
  by_contra hnone
  rw [Bool.not_eq_true, Option.isSome_eq_false_iff, Option.isNone_iff_eq_none] at hnone
  rw [feed_eq_none hnone] at hassigned
  cases hassigned

/-- Feeding goes on while other fields are assigned. -/
theorem Feeding.feed {other : Constraint} {feeder : Row}
    (h : Feeding constraints rows g constraint parent child column parentColumn) :
    Feeding constraints rows (Cascade.feed other g feeder) constraint parent child column
      parentColumn :=
  { h with fires := fires_of_feed h.fires }

/-- What holds of a field while the worklist runs: it is assigned only if some parent hands it a
value, and then it holds the value of one of these, unless that one still waits. -/
structure CellInvariant (constraints : List Constraint) (rows : List Row) (g : Assignment)
    (waiting : Constraint → Row → Prop) (child : Row) (column : ColumnOrdinal) : Prop where
  fed : g child column ≠ none → ∃ constraint parent parentColumn,
    Feeding constraints rows g constraint parent child column parentColumn
  holds : (∃ constraint parent parentColumn,
      Feeding constraints rows g constraint parent child column parentColumn) →
    ∃ constraint parent parentColumn,
      Feeding constraints rows g constraint parent child column parentColumn ∧
        (waiting constraint parent ∨ g child column = current g parent parentColumn)

/-- One constraint feeds: a parent it changes waits again, and the others hand the same as
before. -/
theorem CellInvariant.feed (hrows : UpdateRows constraints rows)
    {waiting waiting' : Constraint → Row → Prop} (hchild : child ∈ rows)
    (h : CellInvariant constraints rows g waiting child column)
    {other : Constraint} (hother : other ∈ constraints) {feeder : Row} (hfeeder : feeder ∈ rows)
    (hchanged : ∀ constraint, ∀ parent ∈ rows,
      (∃ c, Cascade.feed other g feeder parent c ≠ g parent c) → waiting' constraint parent)
    (hwaiting : ∀ constraint parent, waiting constraint parent →
      waiting' constraint parent ∨ (other = constraint ∧ feeder = parent)) :
    CellInvariant constraints rows (Cascade.feed other g feeder) waiting' child column := by
  -- a parent that is not changed is worth what it was
  have hkept : ∀ constraint, ∀ parent ∈ rows, ∀ parentColumn, waiting' constraint parent ∨
      current (Cascade.feed other g feeder) parent parentColumn =
        current g parent parentColumn := by
    intro constraint parent hparent parentColumn
    by_cases hmoved : ∃ c, Cascade.feed other g feeder parent c ≠ g parent c
    · exact .inl (hchanged constraint parent hparent hmoved)
    · simp only [not_exists, not_not] at hmoved
      exact .inr (by rw [current, current, hmoved])
  -- the feeder hands its value, whether or not it is a new one
  have hfed : ∀ parentColumn, Feeding constraints rows g other feeder child column parentColumn →
      ∃ constraint parent parentColumn,
        Feeding constraints rows (Cascade.feed other g feeder) constraint parent child column
          parentColumn ∧
        (waiting' constraint parent ∨ Cascade.feed other g feeder child column =
          current (Cascade.feed other g feeder) parent parentColumn) := by
    intro parentColumn hfeeding
    refine ⟨other, feeder, parentColumn, hfeeding.feed, ?_⟩
    refine (hkept other feeder hfeeder parentColumn).imp_right fun hcurrent => ?_
    rw [hcurrent, hfeeding.feed_eq hrows]
  by_cases hne : Cascade.feed other g feeder child column = g child column
  · refine ⟨fun hsome => ?_, fun hsome => ?_⟩
    · rw [hne] at hsome
      obtain ⟨constraint, parent, parentColumn, hfeeding⟩ := h.fed hsome
      exact ⟨constraint, parent, parentColumn, hfeeding.feed⟩
    · by_cases hbefore : ∃ constraint parent parentColumn,
          Feeding constraints rows g constraint parent child column parentColumn
      · obtain ⟨constraint, parent, parentColumn, hfeeding, hholds⟩ := h.holds hbefore
        by_cases hsame : other = constraint ∧ feeder = parent
        · obtain ⟨rfl, rfl⟩ := hsame
          exact hfed parentColumn hfeeding
        · refine ⟨constraint, parent, parentColumn, hfeeding.feed, ?_⟩
          rcases hholds with hw | hw
          · exact .inl ((hwaiting constraint parent hw).resolve_right hsame)
          · refine (hkept constraint parent hfeeding.parent_mem parentColumn).imp_right ?_
            intro hcurrent
            rw [hne, hcurrent, hw]
      · -- the parent begins to hand something: its key was just assigned
        obtain ⟨constraint, parent, parentColumn, hfeeding⟩ := hsome
        refine ⟨constraint, parent, parentColumn, hfeeding,
          .inl (hchanged constraint parent hfeeding.parent_mem ?_)⟩
        by_contra hmoved
        simp only [not_exists, not_not] at hmoved
        refine hbefore ⟨constraint, parent, parentColumn, { hfeeding with fires := ?_ }⟩
        rw [← hfeeding.fires, fires, fires]
        simp only [hmoved]
  · obtain ⟨parentColumn, hfeeding⟩ := feeding_of_feed_ne hother hfeeder hchild hne
    exact ⟨fun _ => ⟨other, feeder, parentColumn, hfeeding.feed⟩, fun _ => hfed _ hfeeding⟩

end Cell

/-! ## The whole worklist -/

/-- The fields an update assigns: those of the request, and what a parent with an assigned key
field hands to its children. -/
inductive Touched (constraints : List Constraint) (rows : List Row) : Row → ColumnOrdinal → Prop
  | request {row column} : row ∈ rows → row.assignedValue column ≠ none →
      Touched constraints rows row column
  | handed {constraint parent child column parentColumn other} : constraint ∈ constraints →
      constraint.flags.updates = true → parent ∈ rows → child ∈ rows →
      ties constraint parent child = true →
      (column, parentColumn) ∈ constraint.childColumns.zip constraint.parentColumns →
      child.isOpen column = true → other ∈ constraint.parentColumns →
      Touched constraints rows parent other → Touched constraints rows child column

/-- What holds while the worklist of an update runs. -/
structure ParentsInvariant (constraints : List Constraint) (rows : List Row) (g : Assignment)
    (waiting : Constraint → Row → Prop) : Prop where
  touched : ∀ row ∈ rows, ∀ column, g row column ≠ none → Touched constraints rows row column
  closed : ∀ row ∈ rows, ∀ column, row.isOpen column = false →
    g row column = row.assignedValue column
  cell : ∀ child ∈ rows, ∀ column, child.isOpen column = true →
    CellInvariant constraints rows g waiting child column

/-- What the assigned values satisfy once the queue is empty. -/
abbrev Settled (constraints : List Constraint) (rows : List Row) (g : Assignment) : Prop :=
  ParentsInvariant constraints rows g fun _ _ => False

/-- The row waits in the queue. -/
def Queued (rows : List Row) (queue : List ℕ) (row : Row) : Prop :=
  ∃ i ∈ queue, rows[i]? = some row

section Run

variable {constraints : List Constraint} {rows : List Row} {g : Assignment}

/-- More rows may wait. -/
theorem ParentsInvariant.mono {waiting waiting' : Constraint → Row → Prop}
    (h : ParentsInvariant constraints rows g waiting)
    (himp : ∀ constraint ∈ constraints, ∀ parent, waiting constraint parent →
      waiting' constraint parent) :
    ParentsInvariant constraints rows g waiting' := by
  refine ⟨h.touched, h.closed, fun child hchild column hopen => ?_⟩
  have hcell := h.cell child hchild column hopen
  refine ⟨hcell.fed, fun hfed => ?_⟩
  obtain ⟨constraint, parent, parentColumn, hfeeding, hholds⟩ := hcell.holds hfed
  exact ⟨constraint, parent, parentColumn, hfeeding,
    hholds.imp_left (himp constraint hfeeding.constraint_mem parent)⟩

/-- One constraint, for the row at the front of the queue. -/
theorem ParentsInvariant.feed (hrows : UpdateRows constraints rows)
    {waiting waiting' : Constraint → Row → Prop} (h : ParentsInvariant constraints rows g waiting)
    {other : Constraint} (hother : other ∈ constraints) {feeder : Row} (hfeeder : feeder ∈ rows)
    (hchanged : ∀ constraint, ∀ parent ∈ rows,
      (∃ c, Cascade.feed other g feeder parent c ≠ g parent c) → waiting' constraint parent)
    (hwaiting : ∀ constraint parent, waiting constraint parent →
      waiting' constraint parent ∨ (other = constraint ∧ feeder = parent)) :
    ParentsInvariant constraints rows (Cascade.feed other g feeder) waiting' := by
  refine ⟨fun child hchild column hsome => ?_, fun child hchild column hclosed => ?_,
    fun child hchild column hopen =>
      (h.cell child hchild column hopen).feed hrows hchild hother hfeeder hchanged hwaiting⟩
  · by_cases hne : Cascade.feed other g feeder child column = g child column
    · exact h.touched child hchild column (hne ▸ hsome)
    · obtain ⟨parentColumn, hfeeding⟩ := feeding_of_feed_ne hother hfeeder hchild hne
      have hfires := hfeeding.fires
      simp only [fires, Bool.and_eq_true, List.any_eq_true] at hfires
      obtain ⟨⟨hupdates, hties⟩, assigned, hmem, hassigned⟩ := hfires
      exact .handed hother hupdates hfeeder hchild hties hfeeding.column_mem hfeeding.isOpen hmem
        (h.touched feeder hfeeder assigned (Option.isSome_iff_ne_none.mp hassigned))
  · rw [← h.closed child hchild column hclosed]
    by_contra hne
    rw [(feed_ne hne).2.1] at hclosed
    cases hclosed

/-- One queue item. -/
theorem propagateStep_parents (hrows : UpdateRows constraints rows) {i : ℕ} {rest : List ℕ}
    (h : ParentsInvariant constraints rows g fun _ => Queued rows (i :: rest)) :
    ∃ g' pushed, propagateStep constraints (withAfter rows g) i =
        .ok (withAfter rows g', pushed) ∧
      ParentsInvariant constraints rows g' fun _ => Queued rows (rest ++ pushed) := by
  rcases hi : rows[i]? with _ | feeder
  · refine ⟨g, [], propagateStep_of_none ?_, h.mono fun _ _ parent => ?_⟩
    · rw [withAfter, List.getElem?_map, hi, Option.map_none]
    · rintro ⟨j, hj, hparent⟩
      rcases List.mem_cons.mp hj with rfl | hj
      · rw [hi] at hparent
        cases hparent
      · exact ⟨j, List.mem_append_left _ hj, hparent⟩
  · have hfeeder := List.mem_of_getElem? hi
    -- the front row waits for the constraints that are not done with it
    have hinit : ParentsInvariant constraints rows g fun constraint parent =>
        Queued rows (rest ++ []) parent ∨
        (feeder = parent ∧ constraint ∉ ([] : List Constraint)) := by
      refine h.mono fun _ _ parent => ?_
      rintro ⟨j, hj, hparent⟩
      rcases List.mem_cons.mp hj with rfl | hj
      · rw [hi, Option.some.injEq] at hparent
        exact .inr ⟨hparent, List.not_mem_nil⟩
      · exact .inl ⟨j, List.mem_append_left _ hj, hparent⟩
    have hstep := propagateStep_induction hrows hi g
      (fun done g' pushed => ParentsInvariant constraints rows g' fun constraint parent =>
        Queued rows (rest ++ pushed) parent ∨ (feeder = parent ∧ constraint ∉ done)) hinit ?_
    · obtain ⟨g', pushed, hok, hinv⟩ := hstep
      exact ⟨g', pushed, hok, hinv.mono fun _ hmem _ hw =>
        hw.resolve_right fun hnot => hnot.2 hmem⟩
    · intro done other later g' queue pushed hsplit hinv _ _ hpushed
      have hother : other ∈ constraints := by
        rw [hsplit]
        exact List.mem_append_right _ List.mem_cons_self
      refine hinv.feed hrows hother hfeeder (fun _ parent hparent hchanged => ?_)
        fun constraint parent hw => ?_
      · obtain ⟨j, hj⟩ := List.mem_iff_getElem?.mp hparent
        refine .inl ⟨j, ?_, hj⟩
        have hin : j ∈ pushed := (hpushed j).mpr ⟨parent, hj, hchanged⟩
        simp [hin]
      · rcases hw with ⟨j, hj, hparent⟩ | ⟨hparent, hnot⟩
        · refine .inl (.inl ⟨j, ?_, hparent⟩)
          rw [← List.append_assoc]
          exact List.mem_append_left _ hj
        · by_cases heq : other = constraint
          · exact .inr ⟨heq, hparent⟩
          · refine .inl (.inr ⟨hparent, fun hin => ?_⟩)
            rcases List.mem_append.mp hin with hin | hin
            · exact hnot hin
            · exact heq (List.mem_singleton.mp hin).symm

/-- Before the first step only the requested fields are assigned, and their row waits. -/
theorem parentsInvariant_start (hstart : UpdateStart constraints rows) {selected : ℕ}
    (honly : ∀ row ∈ rows, ∀ field ∈ row.fields, field.after ≠ none → rows[selected]? = some row) :
    ParentsInvariant constraints rows Row.assignedValue fun _ => Queued rows [selected] := by
  refine ⟨fun row hrow column hsome => .request hrow hsome, fun _ _ _ _ => rfl,
    fun child hchild column hopen => ⟨fun hsome => ?_, ?_⟩⟩
  · obtain ⟨value, hvalue⟩ := Option.ne_none_iff_exists'.mp hsome
    rw [hstart.explicit child hchild column value hvalue] at hopen
    cases hopen
  · rintro ⟨constraint, parent, parentColumn, hfeeding⟩
    refine ⟨constraint, parent, parentColumn, hfeeding, .inl ?_⟩
    have hfires := hfeeding.fires
    simp only [fires, Bool.and_eq_true, List.any_eq_true] at hfires
    obtain ⟨-, other, -, hassigned⟩ := hfires
    obtain ⟨value, hvalue⟩ := Option.isSome_iff_exists.mp hassigned
    rw [Row.assignedValue, Option.bind_eq_some_iff] at hvalue
    obtain ⟨field, hfield, hafter⟩ := hvalue
    exact ⟨selected, List.mem_singleton_self selected, honly parent hfeeding.parent_mem field
      (List.mem_of_find?_eq_some hfield) (by simp [hafter])⟩

/-- What the worklist of an update leaves. -/
theorem propagate_settled (hstart : UpdateStart constraints rows) {selected fuel : ℕ}
    {final : List Row}
    (honly : ∀ row ∈ rows, ∀ field ∈ row.fields, field.after ≠ none → rows[selected]? = some row)
    (h : propagate constraints fuel rows selected = .ok (some final)) :
    ∃ g, final = withAfter rows g ∧ Settled constraints rows g := by
  obtain ⟨g, hfinal, hinv⟩ := Worklist.run_induction
    (motive := fun s queue => ∃ g, s = withAfter rows g ∧
      ParentsInvariant constraints rows g fun _ => Queued rows queue)
    (by
      rintro _ i rest s' pushed ⟨g, rfl, hinv⟩ hstep
      obtain ⟨g', pushed', hok, hinv'⟩ := propagateStep_parents hstart.updates hinv
      rw [hok] at hstep
      cases hstep
      exact ⟨g', rfl, hinv'⟩)
    ⟨Row.assignedValue, eq_withAfter_assignedValue hstart.updates,
      parentsInvariant_start hstart honly⟩ h
  refine ⟨g, hfinal, hinv.mono fun _ _ _ => ?_⟩
  rintro ⟨j, hj, -⟩
  exact List.not_mem_nil hj

/-! ## Settled values -/

/-- A field that is handed something holds what one of its parents hands it. -/
theorem Settled.exists_feeding (h : Settled constraints rows g) {constraint : Constraint}
    {parent child : Row} {column parentColumn : ColumnOrdinal}
    (hfeeding : Feeding constraints rows g constraint parent child column parentColumn) :
    ∃ constraint parent parentColumn,
      Feeding constraints rows g constraint parent child column parentColumn ∧
        g child column = current g parent parentColumn := by
  obtain ⟨constraint, parent, parentColumn, hfeeding, hholds⟩ :=
    (h.cell child hfeeding.child_mem column hfeeding.isOpen).holds ⟨_, _, _, hfeeding⟩
  exact ⟨constraint, parent, parentColumn, hfeeding, hholds.resolve_left id⟩

/-- The settled values assign exactly the touched fields. -/
theorem Settled.ne_none_iff (hstart : UpdateStart constraints rows)
    (h : Settled constraints rows g) {row : Row} (hrow : row ∈ rows) {column : ColumnOrdinal} :
    g row column ≠ none ↔ Touched constraints rows row column := by
  refine ⟨h.touched row hrow column, fun htouched => ?_⟩
  induction htouched with
  | @request row column hmem hsome =>
    obtain ⟨value, hvalue⟩ := Option.ne_none_iff_exists'.mp hsome
    rw [h.closed row hmem column (hstart.explicit row hmem column value hvalue)]
    exact hsome
  | @handed constraint parent child column parentColumn other hconstraint hupdates hparent hchild
      hties hpair hopen hother _ ih =>
    -- a touched parent fires, and what it feeds is held
    have hfires : fires constraint g parent child = true := by
      simp only [fires, hupdates, hties, Bool.and_self, Bool.true_and, List.any_eq_true]
      exact ⟨other, hother, Option.isSome_iff_ne_none.mpr (ih hparent)⟩
    obtain ⟨_, _, _, hfeeding, hholds⟩ :=
      h.exists_feeding ⟨hconstraint, hparent, hchild, hfires, hpair, hopen⟩
    obtain ⟨value, hvalue⟩ := hfeeding.exists_current hstart.updates
    rw [hholds, hvalue]
    simp

/-- So all settled values make the same parents hand something down. -/
theorem Settled.feeding (hstart : UpdateStart constraints rows) {g' : Assignment}
    (h : Settled constraints rows g) (h' : Settled constraints rows g') {constraint : Constraint}
    {parent child : Row} {column parentColumn : ColumnOrdinal}
    (hfeeding : Feeding constraints rows g constraint parent child column parentColumn) :
    Feeding constraints rows g' constraint parent child column parentColumn := by
  refine { hfeeding with fires := ?_ }
  have hassigned : ∀ other, (g' parent other).isSome = (g parent other).isSome := by
    intro other
    rw [Bool.eq_iff_iff, Option.isSome_iff_ne_none, Option.isSome_iff_ne_none,
      h'.ne_none_iff hstart hfeeding.parent_mem, h.ne_none_iff hstart hfeeding.parent_mem]
  rw [← hfeeding.fires, fires, fires]
  simp only [hassigned]

/-- A field that is handed nothing is what it was. -/
theorem Settled.eq_of_not_feeding {g' : Assignment} (h : Settled constraints rows g)
    (h' : Settled constraints rows g') {child : Row} (hchild : child ∈ rows)
    {column : ColumnOrdinal}
    (hnone : ∀ constraint parent parentColumn,
      ¬Feeding constraints rows g constraint parent child column parentColumn)
    (hnone' : ∀ constraint parent parentColumn,
      ¬Feeding constraints rows g' constraint parent child column parentColumn) :
    g child column = g' child column := by
  rcases hopen : child.isOpen column with _ | _
  · rw [h.closed child hchild column hopen, h'.closed child hchild column hopen]
  · have hunassigned : ∀ f, Settled constraints rows f →
        (∀ constraint parent parentColumn,
          ¬Feeding constraints rows f constraint parent child column parentColumn) →
        f child column = none := by
      intro f hf hnone
      by_contra hsome
      obtain ⟨constraint, parent, parentColumn, hfeeding⟩ :=
        (hf.cell child hchild column hopen).fed hsome
      exact hnone _ _ _ hfeeding
    rw [hunassigned g h hnone, hunassigned g' h' hnone']

/-! ### On the rows of the plan -/

/-- A row with assigned values comes from a row without. -/
theorem mem_withAfter {row : Row} : row ∈ withAfter rows g ↔
    ∃ start ∈ rows, start.withAfter (g start) = row :=
  List.mem_map

/-- The current values of an assignment. -/
theorem current_withAfter (row : Row) (column : ColumnOrdinal) :
    (row.withAfter (g row)).current column = current g row column := by
  rcases hfield : row.field column with _ | field
  · rw [Row.current, field_withAfter, current, hfield]
    rfl
  · obtain ⟨found, hfound, hcurrent⟩ := current_eq (g := g) hfield
    rw [Row.current, hfound, hcurrent, Option.map_some]

/-- An assignment leaves the stored values alone. -/
@[simp]
theorem before_withAfter (row : Row) (after : ColumnOrdinal → Option Value)
    (column : ColumnOrdinal) : (row.withAfter after).before column = row.before column := by
  rw [Row.before, field_withAfter, Row.before, Option.map_map]
  rfl

/-- Ties are about the stored values. -/
@[simp]
theorem ties_withAfter (constraint : Constraint) (parent child : Row)
    (after after' : ColumnOrdinal → Option Value) :
    ties constraint (parent.withAfter after) (child.withAfter after') =
      ties constraint parent child := by
  simp only [ties, sameKey, withAfter_table, key_withAfter]

/-- What the plan hands down, the settled values do. -/
theorem hands_withAfter_iff (hrows : UpdateRows constraints rows) {constraint : Constraint}
    {parent child : Row} {column parentColumn : ColumnOrdinal} (hchild : child ∈ rows) :
    Hands constraints (withAfter rows g) constraint parent (child.withAfter (g child)) column
        parentColumn ↔
      ∃ start ∈ rows, start.withAfter (g start) = parent ∧
        Feeding constraints rows g constraint start child column parentColumn := by
  have hassigned : ∀ start ∈ rows, constraint ∈ constraints →
      ties constraint start child = true →
      (start.withAfter (g start)).assigned constraint.parentColumns =
        constraint.parentColumns.any fun column => (g start column).isSome :=
    fun start hstart hconstraint hties => assigned_withAfter (hrows.kept start hstart)
      (exists_parentField hrows hconstraint hstart hties)
  constructor
  · rintro ⟨hconstraint, hupdates, hparent, -, hties, hfires, hpair, hopen⟩
    obtain ⟨start, hstart, rfl⟩ := mem_withAfter.mp hparent
    rw [ties_withAfter] at hties
    rw [hassigned start hstart hconstraint hties] at hfires
    rw [isOpen_withAfter] at hopen
    refine ⟨start, hstart, rfl, hconstraint, hstart, hchild, ?_, hpair, hopen⟩
    simp only [fires, hupdates, hties, hfires, Bool.and_self]
  · rintro ⟨start, hstart, rfl, hfeeding⟩
    have hfires := hfeeding.fires
    simp only [fires, Bool.and_eq_true] at hfires
    refine ⟨hfeeding.constraint_mem, hfires.1.1, List.mem_map_of_mem hstart,
      List.mem_map_of_mem hchild, ?_, ?_, hfeeding.column_mem, ?_⟩
    · rw [ties_withAfter, hfires.1.2]
    · rw [hassigned start hstart hfeeding.constraint_mem hfires.1.2, hfires.2]
    · rw [isOpen_withAfter, hfeeding.isOpen]

/-- A field that is fed is handed a value. -/
theorem Feeding.hands (hrows : UpdateRows constraints rows) {constraint : Constraint}
    {parent child : Row} {column parentColumn : ColumnOrdinal}
    (h : Feeding constraints rows g constraint parent child column parentColumn) :
    Hands constraints (withAfter rows g) constraint (parent.withAfter (g parent))
      (child.withAfter (g child)) column parentColumn :=
  (hands_withAfter_iff hrows h.child_mem).mpr ⟨parent, h.parent_mem, rfl, h⟩

/-- The value that is handed is the parent's. -/
theorem Feeding.handed (hrows : UpdateRows constraints rows) {constraint : Constraint}
    {parent child : Row} {column parentColumn : ColumnOrdinal} {value : Value}
    (h : Feeding constraints rows g constraint parent child column parentColumn)
    (hvalue : current g parent parentColumn = some value) :
    Handed constraints (withAfter rows g) (child.withAfter (g child)) column value :=
  ⟨constraint, _, parentColumn, h.hands hrows, (current_withAfter parent parentColumn).trans hvalue⟩

/-- In a consistent plan a field holds what any of its parents hands it. -/
theorem Settled.eq_current (hrows : UpdateRows constraints rows) (h : Settled constraints rows g)
    (hconsistent : Consistent constraints (withAfter rows g)) {constraint : Constraint}
    {parent child : Row} {column parentColumn : ColumnOrdinal}
    (hfeeding : Feeding constraints rows g constraint parent child column parentColumn) :
    g child column = current g parent parentColumn := by
  obtain ⟨_, _, _, hfeeding', hholds⟩ := h.exists_feeding hfeeding
  obtain ⟨value, hvalue⟩ := hfeeding.exists_current hrows
  obtain ⟨value', hvalue'⟩ := hfeeding'.exists_current hrows
  rw [hholds, hvalue, hvalue',
    hconsistent _ _ _ _ (hfeeding'.handed hrows hvalue') (hfeeding.handed hrows hvalue)]

end Run

/-! ## One plan for every order -/

section Order

variable {constraints constraints' : List Constraint} {rows rows' : List Row} {g g' : Assignment}

/-- Assignments that agree on the rows give the same rows. -/
theorem withAfter_eq (h : ∀ row ∈ rows, ∀ column, g row column = g' row column) :
    withAfter rows g = withAfter rows g' :=
  List.map_congr_left fun row hrow => by rw [funext (h row hrow)]

/-- Where no field is its own source, sources are well founded. -/
theorem wellFounded_source {plan : List Row}
    (hacyclic : ∀ cell, ¬Relation.TransGen (Source constraints plan) cell cell) :
    WellFounded (Source constraints plan) := by
  let columns := constraints.flatMap fun c => c.childColumns ++ c.parentColumns
  have hfinite : {cell : Row × ColumnOrdinal | cell.1 ∈ plan ∧ cell.2 ∈ columns}.Finite :=
    (Set.Finite.prod plan.finite_toSet columns.finite_toSet).subset fun _ h => h
  refine Worklist.wellFounded_of_acyclic hfinite ?_ hacyclic
  rintro ⟨parent, parentColumn⟩ ⟨child, column⟩ ⟨constraint, hhands⟩
  have hcolumns := List.of_mem_zip hhands.column_mem
  exact ⟨⟨hhands.parent_mem, List.mem_flatMap.mpr ⟨constraint, hhands.constraint_mem,
      List.mem_append_right _ hcolumns.2⟩⟩,
    ⟨hhands.child_mem, List.mem_flatMap.mpr ⟨constraint, hhands.constraint_mem,
      List.mem_append_left _ hcolumns.1⟩⟩⟩

/-- The values of a consistent plan are the only settled ones when no field is its own source. -/
theorem Settled.eq_of_acyclic (hstart : UpdateStart constraints rows)
    (h : Settled constraints rows g) (h' : Settled constraints rows g')
    (hconsistent : Consistent constraints (withAfter rows g))
    (hacyclic : ∀ cell, ¬Relation.TransGen (Source constraints (withAfter rows g)) cell cell) :
    withAfter rows g = withAfter rows g' := by
  have key : ∀ cell : Row × ColumnOrdinal, ∀ child ∈ rows, child.withAfter (g child) = cell.1 →
      g child cell.2 = g' child cell.2 := by
    intro cell
    induction cell using (wellFounded_source hacyclic).induction with
    | _ cell ih =>
      rintro child hchild himage
      by_cases hfed : ∃ constraint parent parentColumn,
          Feeding constraints rows g constraint parent child cell.2 parentColumn
      · -- the other values take the field from one of its sources, where the two agree
        obtain ⟨_, _, _, hfeeding⟩ := hfed
        obtain ⟨constraint, parent, parentColumn, hfeeding', hholds⟩ :=
          h'.exists_feeding (h.feeding hstart h' hfeeding)
        have hfeeding := h'.feeding hstart h hfeeding'
        have hhands := hfeeding.hands hstart.updates
        rw [himage] at hhands
        have hsource := ih (parent.withAfter (g parent), parentColumn) ⟨constraint, hhands⟩ parent
          hfeeding.parent_mem rfl
        rw [h.eq_current hstart.updates hconsistent hfeeding, hholds, current, current, hsource]
      · simp only [not_exists] at hfed
        exact h.eq_of_not_feeding h' hchild hfed fun _ _ _ hfeeding' =>
          hfed _ _ _ (h'.feeding hstart h hfeeding')
  exact withAfter_eq fun row hrow column => key (_, column) row hrow rfl

/-- Two consistent plans agree where every field goes back to one that is handed nothing. -/
theorem Settled.eq_of_origins (hstart : UpdateStart constraints rows)
    (h : Settled constraints rows g) (h' : Settled constraints rows g')
    (hconsistent : Consistent constraints (withAfter rows g))
    (hconsistent' : Consistent constraints (withAfter rows g'))
    (horigins : HasOrigins constraints (withAfter rows g)) :
    withAfter rows g = withAfter rows g' := by
  refine withAfter_eq fun row hrow column => ?_
  obtain ⟨origin, hpath, hnone⟩ := horigins _ (List.mem_map_of_mem hrow) column
  -- along the path from the origin, cell by cell
  have key : ∀ cell : Row × ColumnOrdinal,
      Relation.ReflTransGen (Source constraints (withAfter rows g)) origin cell →
      ∀ child ∈ rows, child.withAfter (g child) = cell.1 → g child cell.2 = g' child cell.2 := by
    intro cell hpath
    induction hpath with
    | refl =>
      intro child hchild himage
      have hunfed : ∀ constraint parent parentColumn,
          ¬Feeding constraints rows g constraint parent child origin.2 parentColumn := by
        intro constraint parent parentColumn hfeeding
        have hhands := hfeeding.hands hstart.updates
        rw [himage] at hhands
        exact hnone (parent.withAfter (g parent), parentColumn) ⟨constraint, hhands⟩
      exact h.eq_of_not_feeding h' hchild hunfed fun _ _ _ hfeeding' =>
        hunfed _ _ _ (h'.feeding hstart h hfeeding')
    | @tail source cell _ hsource ih =>
      rintro child hchild himage
      obtain ⟨constraint, hhands⟩ := hsource
      rw [← himage] at hhands
      obtain ⟨parent, hparent, hparentImage, hfeeding⟩ :=
        (hands_withAfter_iff hstart.updates hchild).mp hhands
      rw [h.eq_current hstart.updates hconsistent hfeeding,
        h'.eq_current hstart.updates hconsistent' (h.feeding hstart h' hfeeding), current, current,
        ih parent hparent hparentImage]
  exact key (_, column) hpath row hrow rfl

/-- More constraints and rows hand as much. -/
theorem Hands.mono {plan plan' : List Row} (hconstraints : constraints ⊆ constraints')
    (hplan : plan ⊆ plan') {constraint : Constraint} {parent child : Row}
    {column parentColumn : ColumnOrdinal}
    (h : Hands constraints plan constraint parent child column parentColumn) :
    Hands constraints' plan' constraint parent child column parentColumn :=
  { h with
    constraint_mem := hconstraints h.constraint_mem
    parent_mem := hplan h.parent_mem
    child_mem := hplan h.child_mem }

/-- Fewer constraints and rows hand no two values. -/
theorem Consistent.mono {plan plan' : List Row} (hconstraints : constraints ⊆ constraints')
    (hplan : plan ⊆ plan') (h : Consistent constraints' plan') : Consistent constraints plan := by
  rintro child column value value' ⟨constraint, parent, parentColumn, hhands, hvalue⟩
    ⟨constraint', parent', parentColumn', hhands', hvalue'⟩
  exact h child column value value'
    ⟨constraint, parent, parentColumn, hhands.mono hconstraints hplan, hvalue⟩
    ⟨constraint', parent', parentColumn', hhands'.mono hconstraints hplan, hvalue'⟩

/-- More constraints and rows feed as much. -/
theorem Feeding.mono (hconstraints : constraints ⊆ constraints') (hrows : rows ⊆ rows')
    {constraint : Constraint} {parent child : Row} {column parentColumn : ColumnOrdinal}
    (h : Feeding constraints rows g constraint parent child column parentColumn) :
    Feeding constraints' rows' g constraint parent child column parentColumn :=
  { h with
    constraint_mem := hconstraints h.constraint_mem
    parent_mem := hrows h.parent_mem
    child_mem := hrows h.child_mem }

/-- More constraints and rows touch as much. -/
theorem Touched.mono (hconstraints : constraints ⊆ constraints') (hrows : rows ⊆ rows')
    {row : Row} {column : ColumnOrdinal} (h : Touched constraints rows row column) :
    Touched constraints' rows' row column := by
  induction h with
  | request hrow hsome => exact .request (hrows hrow) hsome
  | handed hconstraint hupdates hparent hchild hties hpair hopen hother _ ih =>
    exact .handed (hconstraints hconstraint) hupdates (hrows hparent) (hrows hchild) hties hpair
      hopen hother ih

/-- What settled values satisfy does not mention an order. -/
theorem Settled.perm (hconstraints : constraints.Perm constraints') (hrows : rows.Perm rows')
    (h : Settled constraints' rows' g) : Settled constraints rows g := by
  -- nothing that a settled assignment says depends on the order of the lists
  have hmono : ∀ {constraint parent child column parentColumn},
      Feeding constraints' rows' g constraint parent child column parentColumn →
        Feeding constraints rows g constraint parent child column parentColumn :=
    fun hfeeding => hfeeding.mono hconstraints.symm.subset hrows.symm.subset
  refine ⟨fun row hrow column hsome => ?_, fun row hrow column hclosed => ?_,
    fun child hchild column hopen => ⟨fun hsome => ?_, ?_⟩⟩
  · exact (h.touched row (hrows.subset hrow) column hsome).mono hconstraints.symm.subset
      hrows.symm.subset
  · exact h.closed row (hrows.subset hrow) column hclosed
  · obtain ⟨constraint, parent, parentColumn, hfeeding⟩ :=
      (h.cell child (hrows.subset hchild) column hopen).fed hsome
    exact ⟨constraint, parent, parentColumn, hmono hfeeding⟩
  · rintro ⟨_, _, _, hfeeding⟩
    obtain ⟨constraint, parent, parentColumn, hfeeding, hholds⟩ :=
      h.exists_feeding (hfeeding.mono hconstraints.subset hrows.subset)
    exact ⟨constraint, parent, parentColumn, hmono hfeeding, .inr hholds⟩

end Order

/-! ## Keys after an update -/

section Keys

variable {constraints : List Constraint} {rows : List Row} {g : Assignment}

/-- The value a key reads from a field. -/
def currentValue (g : Assignment) (row : Row) (column : ColumnOrdinal) : RowValue :=
  ((current g row column).map Value.value).getD .null

/-- The key of a row after the change is that of the assigned values. -/
theorem key_after {row : Row} {columns : List ColumnOrdinal} (kinds : List ScalarKeyType)
    (hlength : columns.length ≤ maxFields)
    (hfields : ∀ column ∈ columns, ∃ field, row.field column = some field) :
    (row.withAfter (g row)).key columns kinds true =
      Key.encode kinds (columns.map (currentValue g row)) := by
  have hvalues : (row.withAfter (g row)).values columns true =
      .ok (columns.map (currentValue g row)) := by
    refine values_eq hlength fun column hmem => ?_
    obtain ⟨field, hfield⟩ := hfields column hmem
    obtain ⟨found, hfound, hcurrent⟩ := current_eq (g := g) hfield
    exact ⟨found, hfound, by rw [currentValue, hcurrent, if_pos rfl]; rfl⟩
  rw [Row.key, hvalues]
  rfl

/-- A key whose fields end with the values they had stays. -/
theorem key_after_before {row : Row} {columns : List ColumnOrdinal}
    {kinds : List ScalarKeyType} {key : Option Key} (hlength : columns.length ≤ maxFields)
    (hsame : ∀ column ∈ columns, current g row column = row.before column)
    (h : row.key columns kinds false = .ok key) :
    (row.withAfter (g row)).key columns kinds true = .ok key := by
  rw [key_after kinds hlength (exists_field_of_key h), ← h, Row.key]
  have hvalues : row.values columns false = .ok (columns.map (currentValue g row)) := by
    refine values_eq hlength fun column hmem => ?_
    obtain ⟨field, hfield⟩ := exists_field_of_key h column hmem
    refine ⟨field, hfield, ?_⟩
    rw [currentValue, hsame column hmem, Row.before, hfield]
    rfl
  rw [hvalues]
  rfl

theorem map_eq_map_of_zip {α β : Type} {f f' : α → β} {l l' : List α}
    (hlength : l.length = l'.length) (h : ∀ pair ∈ l.zip l', f pair.1 = f' pair.2) :
    l.map f = l'.map f' :=
  calc
    l.map f = (l.zip l').map (f ∘ Prod.fst) := by
      rw [← List.map_map, List.map_fst_zip hlength.le]
    _ = (l.zip l').map (f' ∘ Prod.snd) := List.map_congr_left h
    _ = l'.map f' := by rw [← List.map_map, List.map_snd_zip hlength.ge]

/-- An unassigned field has its old value. -/
theorem current_of_none {row : Row} {column : ColumnOrdinal} (h : g row column = none) :
    current g row column = row.before column := by
  rw [current, h, Row.before]
  rfl

/-- A field of the plan that is handed something has one of the values it is handed, and else the
value it had. -/
theorem Settled.current_cases (hrows : UpdateRows constraints rows)
    (h : Settled constraints rows g) {child : Row} (hchild : child ∈ rows) {column : ColumnOrdinal}
    (hopen : child.isOpen column = true) :
    (∃ value, Handed constraints (withAfter rows g) (child.withAfter (g child)) column value ∧
      current g child column = some value) ∨
    (∀ value, ¬Handed constraints (withAfter rows g) (child.withAfter (g child)) column value) ∧
      current g child column = child.before column := by
  -- fed by some parent, or by none
  by_cases hfed : ∃ constraint parent parentColumn,
      Feeding constraints rows g constraint parent child column parentColumn
  · obtain ⟨_, _, _, hfeeding⟩ := hfed
    obtain ⟨constraint, parent, parentColumn, hfeeding, hholds⟩ := h.exists_feeding hfeeding
    obtain ⟨value, hvalue⟩ := hfeeding.exists_current hrows
    refine .inl ⟨value, hfeeding.handed hrows hvalue, ?_⟩
    rw [Row.isOpen, Option.any_eq_true] at hopen
    obtain ⟨field, hfield, -⟩ := hopen
    rw [current, hfield, hholds, hvalue]
    rfl
  · refine .inr ⟨?_, current_of_none ?_⟩
    · rintro value ⟨constraint, parent, parentColumn, hhands, -⟩
      obtain ⟨start, -, -, hfeeding⟩ := (hands_withAfter_iff hrows hchild).mp hhands
      exact hfed ⟨constraint, start, parentColumn, hfeeding⟩
    · by_contra hsome
      exact hfed ((h.cell child hchild column hopen).fed hsome)

/-- The keys of a parent and a child that it is tied to, once the values are settled. -/
theorem Settled.equal_keys (hrows : UpdateRows constraints rows)
    (h : Settled constraints rows g) {constraint : Constraint}
    (hconstraint : constraint ∈ constraints)
    {parent child : Row} (hparent : parent ∈ rows) (hchild : child ∈ rows)
    (hties : ties constraint parent child = true)
    (hopen : ∀ column ∈ constraint.childColumns, child.isOpen column = true)
    (hkept : Follows constraints (withAfter rows g) constraint (parent.withAfter (g parent))
        (child.withAfter (g child)) ∨
      Stays constraints (withAfter rows g) constraint (parent.withAfter (g parent))
        (child.withAfter (g child)))
    {parentKey childKey : Option Key}
    (hparentKey : (parent.withAfter (g parent)).key constraint.parentColumns
      constraint.parentKinds true = .ok parentKey)
    (hchildKey : (child.withAfter (g child)).key constraint.childColumns
      constraint.childKinds true = .ok childKey) : equal parentKey childKey = true := by
  have hsplit := hties
  simp only [ties, sameKey, Bool.and_eq_true, beq_iff_eq] at hsplit
  obtain ⟨⟨hparentTable, hchildTable⟩, hsame⟩ := hsplit
  obtain ⟨before, hbefore⟩ := (hrows.encodes constraint hconstraint parent hparent).1 hparentTable
  obtain ⟨childBefore, hchildBefore⟩ :=
    (hrows.encodes constraint hconstraint child hchild).2 hchildTable
  have hparentFields := exists_field_of_key hbefore
  have hchildLength : constraint.childColumns.length ≤ maxFields :=
    constraint.childColumns_length ▸ constraint.fields_le
  rcases hkept with hfollows | ⟨hunassigned, hstays⟩
  · -- every child field ends with the value of the parent
    have hvalues : constraint.childColumns.map (currentValue g child) =
        constraint.parentColumns.map (currentValue g parent) := by
      refine map_eq_map_of_zip constraint.childColumns_length fun pair hpair => ?_
      obtain ⟨column, parentColumn⟩ := pair
      obtain ⟨hhanded, hkeeps⟩ := hfollows column parentColumn hpair
      rw [current_withAfter, before_withAfter] at *
      have hcurrent : current g child column = current g parent parentColumn := by
        rcases h.current_cases hrows hchild (hopen column (List.of_mem_zip hpair).1) with
          ⟨value, hvalue, hheld⟩ | ⟨hnone, hheld⟩
        · rw [hheld, hhanded value hvalue]
        · rw [hheld, hkeeps hnone]
      rw [currentValue, currentValue, hcurrent]
    rw [key_after _ constraint.fields_le hparentFields] at hparentKey
    rw [key_after _ hchildLength (exists_field_of_key hchildBefore), hvalues] at hchildKey
    rw [Key.encode_compatible constraint.kinds_compatible hparentKey hchildKey]
    simp [equal]
  · -- neither key changes
    rw [assigned_withAfter (hrows.kept parent hparent) hparentFields, List.any_eq_false]
      at hunassigned
    rw [key_after_before constraint.fields_le (fun column hcolumn => current_of_none
      (by simpa using hunassigned column hcolumn)) hbefore] at hparentKey
    rw [key_after_before hchildLength (fun column hcolumn => ?_) hchildBefore] at hchildKey
    · cases hparentKey
      cases hchildKey
      simpa [hbefore, hchildBefore] using hsame
    · rcases h.current_cases hrows hchild (hopen column hcolumn) with
        ⟨value, hvalue, hheld⟩ | ⟨-, hheld⟩
      · have hbefore := hstays column hcolumn value hvalue
        rw [before_withAfter] at hbefore
        rw [hheld, hbefore]
      · exact hheld

end Keys

/-! ## Accepted updates -/

/-- A parent whose key is assigned hands it to its children: these follow it where no other value is
handed to their key columns. -/
theorem follows_of_oneHanded {constraints : List Constraint} {plan : List Row}
    {constraint : Constraint} {parent child : Row} (hconstraint : constraint ∈ constraints)
    (hupdates : constraint.flags.updates = true) (hparent : parent ∈ plan) (hchild : child ∈ plan)
    (hties : ties constraint parent child = true)
    (hassigned : parent.assigned constraint.parentColumns = true)
    (hfields : ∀ column ∈ constraint.parentColumns, ∃ value, parent.current column = some value)
    (hopen : ∀ column ∈ constraint.childColumns, child.isOpen column = true)
    (hone : ∀ column ∈ constraint.childColumns, OneHanded constraints plan child column) :
    Follows constraints plan constraint parent child := by
  intro column parentColumn hpair
  obtain ⟨hcolumn, hparentColumn⟩ := List.of_mem_zip hpair
  obtain ⟨own, hown⟩ := hfields parentColumn hparentColumn
  have hhanded : Handed constraints plan child column own :=
    ⟨constraint, parent, parentColumn, ⟨hconstraint, hupdates, hparent, hchild, hties, hassigned,
      hpair, hopen column hcolumn⟩, hown⟩
  refine ⟨fun value hvalue => ?_, fun hnone => absurd hhanded (hnone own)⟩
  rw [hown, hone column hcolumn own value hhanded hvalue]

/-- The rows of an accepted update. -/
theorem exists_settled {rules : PageNumber → Except WriteError Unit}
    {autoIncrement : ColumnOrdinal → Bool} {target : PageNumber} {constraints : List Constraint}
    {fuel : ℕ} {rows plan : List Row} {change : Change}
    (hrows : Snapshots rows) (hdelete : change.isDelete = false)
    (h : prepare rules autoIncrement target constraints fuel rows change = .ok (some plan)) :
    ∃ start selected, select autoIncrement target change rows = .ok (start, selected) ∧
      UpdateStart constraints start ∧ validate plan constraints true = .ok () ∧
      ∃ g, plan = withAfter start g ∧ Settled constraints start g := by
  obtain ⟨hbefore, start, selected, hselect, hrun, -, -, hafter⟩ := prepare_ok_some_iff.mp h
  obtain ⟨-, hstart⟩ := select_update hrows (validate_before hbefore) hdelete hselect
  exact ⟨start, selected, hselect, hstart, hafter,
    propagate_settled hstart (select_requested hrows.fresh hselect) hrun⟩

/-- An accepted update keeps children with their parents: a child tied to a parent ends with its key
when the key of the parent is assigned and the child's key columns are not handed two different
values, and also when the parent is not assigned and the child is handed what one of them holds. And
a consistent plan does not depend on the order of the constraints and the rows when no field is its
own source, or when the other plan is consistent too and every field goes back to one that is handed
nothing. -/
theorem prepare_keeps_parents {rules : PageNumber → Except WriteError Unit}
    {autoIncrement : ColumnOrdinal → Bool} {target : PageNumber} {constraints : List Constraint}
    {fuel : ℕ} {rows plan : List Row} {change : Change}
    (hrows : Snapshots rows) (hdelete : change.isDelete = false)
    (hplan : prepare rules autoIncrement target constraints fuel rows change = .ok (some plan)) :
    (∀ constraint ∈ constraints, constraint.flags.updates = true →
      ∀ i j parent child, plan[i]? = some parent → plan[j]? = some child →
      ties constraint parent child = true →
      (∀ column ∈ constraint.childColumns, child.isOpen column = true) →
      (parent.assigned constraint.parentColumns = true ∧
          ∀ column ∈ constraint.childColumns, OneHanded constraints plan child column) ∨
        Follows constraints plan constraint parent child ∨
        Stays constraints plan constraint parent child →
      HoldsKeyOf constraint plan i j) ∧
    ((rows.map Row.identity).Nodup → Consistent constraints plan →
      ∀ constraints' rows' fuel' plan', constraints.Perm constraints' → rows.Perm rows' →
        prepare rules autoIncrement target constraints' fuel' rows' change = .ok (some plan') →
        (∀ cell, ¬Relation.TransGen (Source constraints plan) cell cell) ∨
          (Consistent constraints' plan' ∧ HasOrigins constraints plan) →
        plan.Perm plan') := by
  obtain ⟨start, selected, hselect, hstart, hafter, g, rfl, hsettled⟩ :=
    exists_settled hrows hdelete hplan
  constructor
  · intro constraint hconstraint hupdates i j planParent planChild hi hj hties hopen hkept
    obtain ⟨hparents, -, hchildren⟩ :=
      validateConstraint_ok_iff.mp (forM_ok_iff.mp hafter constraint hconstraint)
    obtain ⟨parent, hparent, rfl⟩ := mem_withAfter.mp (List.mem_of_getElem? hi)
    obtain ⟨child, hchild, rfl⟩ := mem_withAfter.mp (List.mem_of_getElem? hj)
    have hdeleted : ∀ row ∈ start, ¬(true = true ∧ (row.withAfter (g row)).deleted = true) := by
      intro row hrow
      simp [hstart.updates.kept row hrow]
    -- a parent that alone hands the columns down is one the child follows
    have hfollows : Follows constraints (withAfter start g) constraint (parent.withAfter (g parent))
          (child.withAfter (g child)) ∨
        Stays constraints (withAfter start g) constraint (parent.withAfter (g parent))
          (child.withAfter (g child)) := by
      refine hkept.elim (fun hassigned => .inl ?_) id
      refine follows_of_oneHanded hconstraint hupdates (List.mem_of_getElem? hi)
        (List.mem_of_getElem? hj) hties hassigned.1 (fun column hcolumn => ?_) hopen hassigned.2
      obtain ⟨field, hfield⟩ := exists_parentField hstart.updates hconstraint hparent
        ((ties_withAfter constraint parent child _ _).symm.trans hties) column hcolumn
      exact ⟨_, by rw [current_withAfter, current, hfield, Option.map_some]⟩
    rw [ties_withAfter] at hties
    -- both keys can be encoded, since the check after the change has done so
    have hsplit := hties
    simp only [ties, Bool.and_eq_true, beq_iff_eq] at hsplit
    obtain ⟨parentKey, hparentKey⟩ := (hparents _ (List.mem_of_getElem? hi) hsplit.1.1).2
      (hdeleted parent hparent)
    obtain ⟨childKey, hchildKey, -⟩ := hchildren _ (List.mem_of_getElem? hj) hsplit.1.2
      (hdeleted child hchild)
    simp only [isOpen_withAfter] at hopen
    exact ⟨_, _, parentKey, childKey, hi, hj, hparentKey, hchildKey,
      hsettled.equal_keys hstart.updates hconstraint hparent hchild hties hopen hfollows
        hparentKey hchildKey⟩
  · intro hids hconsistent constraints' rows' fuel' plan' hconstraints hperm hplan' hsources
    have hrows' : Snapshots rows' :=
      ⟨fun row hrow => hrows.fresh row (hperm.mem_iff.mpr hrow),
        fun row hrow => hrows.columns_nodup row (hperm.mem_iff.mpr hrow)⟩
    obtain ⟨start', selected', hselect', -, -, g', rfl, hsettled'⟩ :=
      exists_settled hrows' hdelete hplan'
    -- both runs settle from the same rows, up to their order
    have hstarts := select_perm hids hperm hselect hselect'
    have hother := hsettled'.perm hconstraints hstarts
    have heq : withAfter start g = withAfter start g' := by
      rcases hsources with hacyclic | ⟨hconsistent', horigins⟩
      · exact hsettled.eq_of_acyclic hstart hother hconsistent hacyclic
      · exact hsettled.eq_of_origins hstart hother hconsistent
          (hconsistent'.mono hconstraints.subset (hstarts.map _).subset) horigins
    rw [heq]
    exact hstarts.map _

/-! ### A shared foreign key -/

/-- One column of a table that references two others. -/
def sharedConstraints :
    List Constraint := [updatingConstraint 10 0 30 0, updatingConstraint 20 0 30 0]

/-- The rows of the three tables. -/
def sharedRows : List Row :=
  [.ofLongs 10 0 [1], .ofLongs 10 1 [5], .ofLongs 20 0 [1], .ofLongs 20 1 [2], .ofLongs 20 2 [5],
    .ofLongs 30 0 [1], .ofLongs 30 1 [5]]

/-- A row of a plan with one field, which is assigned. -/
def assignedRow (table : PageNumber) (old new : Int32) (isExplicit : Bool) : Row :=
  { Row.ofLongs table 0 [] with fields := [assignedField 0 old new isExplicit] }

/-- The first row is given a key that the other referenced table holds too. -/
def sharedPlan : List Row :=
  [assignedRow 10 1 2 true, .ofLongs 10 1 [5], .ofLongs 20 0 [1], .ofLongs 20 1 [2],
    .ofLongs 20 2 [5], assignedRow 30 1 2 false, .ofLongs 30 1 [5]]

/-- The change of the key 1 of table 10 to 2. -/
def sharedPrepare (constraints : List Constraint) (rows : List Row) :
    Except WriteError (Option (List Row)) :=
  prepare (fun _ => .ok ()) (fun _ => false) 10 constraints 9 rows
    (.replace { page := 11, slot := 0 } [.long 2])

/-- The change is planned. -/
theorem sharedPrepare_eq : sharedPrepare sharedConstraints sharedRows = .ok (some sharedPlan) := by
  decide +kernel

/-- Only the first row hands something, and only its new key. -/
theorem hands_sharedPlan {constraint : Constraint} {parent child : Row}
    {column parentColumn : ColumnOrdinal}
    (h : Hands sharedConstraints sharedPlan constraint parent child column parentColumn) :
    parent.table = 10 ∧ child.table = 30 ∧ parent.current parentColumn = some ⟨.long 2, rfl⟩ := by
  have hall : ∀ constraint ∈ sharedConstraints, ∀ parent ∈ sharedPlan, ∀ child ∈ sharedPlan,
      ∀ pair ∈ constraint.childColumns.zip constraint.parentColumns,
      parent.assigned constraint.parentColumns = true → ties constraint parent child = true →
      parent.table = 10 ∧ child.table = 30 ∧ parent.current pair.2 = some ⟨.long 2, rfl⟩ := by
    decide +kernel
  exact hall constraint h.constraint_mem parent h.parent_mem child h.child_mem _ h.column_mem
    h.assigned h.ties

/-- No field of the plan is handed two values. -/
theorem consistent_sharedPlan : Consistent sharedConstraints sharedPlan := by
  rintro child column value value' ⟨_, _, _, hhands, hvalue⟩ ⟨_, _, _, hhands', hvalue'⟩
  rw [(hands_sharedPlan hhands).2.2] at hvalue
  rw [(hands_sharedPlan hhands').2.2] at hvalue'
  exact Option.some.inj (hvalue.symm.trans hvalue')

/-- The rows are snapshots. -/
theorem snapshots_sharedRows : Snapshots sharedRows where
  fresh := by simp [Fresh, sharedRows, Row.ofLongs]
  columns_nodup := by simp [sharedRows, Row.ofLongs]

/-- The child of the changed row follows it, another one stays with its parent, and the order of the
constraints and the rows does not matter. -/
theorem prepare_keeps_parents_shared :
    HoldsKeyOf (updatingConstraint 10 0 30 0) sharedPlan 0 5 ∧
      HoldsKeyOf (updatingConstraint 20 0 30 0) sharedPlan 4 6 ∧
      ∃ plan', sharedPrepare sharedConstraints.reverse sharedRows.reverse = .ok (some plan') ∧
        sharedPlan.Perm plan' := by
  obtain ⟨plan', hplan'⟩ : ∃ plan,
      sharedPrepare sharedConstraints.reverse sharedRows.reverse = .ok (some plan) :=
    exists_ok_some (by decide +kernel)
  obtain ⟨hkeeps, horder⟩ := prepare_keeps_parents snapshots_sharedRows rfl sharedPrepare_eq
  refine ⟨?_, ?_, plan', hplan', ?_⟩
  · exact hkeeps (updatingConstraint 10 0 30 0) (by simp [sharedConstraints]) rfl 0 5 _ _ rfl rfl
      (by decide +kernel) (by decide) (.inl ⟨by decide, fun _ _ => consistent_sharedPlan _ _⟩)
  · refine hkeeps (updatingConstraint 20 0 30 0) (by simp [sharedConstraints]) rfl 4 6 _ _ rfl rfl
      (by decide +kernel) (by decide) (.inr (.inr ⟨by decide, ?_⟩))
    -- nothing is handed to the other child
    rintro column - value ⟨constraint, parent, parentColumn, hhands, -⟩
    have hnone : ∀ constraint ∈ sharedConstraints, ∀ parent ∈ sharedPlan,
        parent.assigned constraint.parentColumns = true →
          ties constraint parent (.ofLongs 30 1 [5]) = false := by decide +kernel
    have hties := hnone constraint hhands.constraint_mem parent hhands.parent_mem hhands.assigned
    exact absurd hhands.ties (by rw [hties]; simp)
  · refine horder (by decide) consistent_sharedPlan _ _ 9 plan' (List.reverse_perm _).symm
      (List.reverse_perm _).symm hplan' (.inl fun cell hcycle => ?_)
    obtain ⟨_, ⟨_, hfirst⟩, -⟩ := Relation.TransGen.head'_iff.mp hcycle
    obtain ⟨_, -, ⟨_, hlast⟩⟩ := Relation.TransGen.tail'_iff.mp hcycle
    have htable := (hands_sharedPlan hfirst).1
    rw [(hands_sharedPlan hlast).2.1] at htable
    exact absurd htable (by decide)

/-! ## Fields handed several values -/

/-- A row whose two key columns are both referenced by one column of another row, and a row holding
the two keys it is given. -/
def diamondRows : List Row :=
  [.ofLongs 10 0 [1, 1], .ofLongs 10 1 [3, 2], .ofLongs 20 0 [1]]

/-- The rows after the first one is given the keys 2 and 3. -/
def diamondPlan (value : Int32) : List Row :=
  [{ Row.ofLongs 10 0 [] with
      fields := [assignedField 0 1 2 true, assignedField 1 1 3 true] },
    .ofLongs 10 1 [3, 2], assignedRow 20 1 value false]

/-- The change of both keys of the row. -/
def diamondPrepare (constraints : List Constraint) : Except WriteError (Option (List Row)) :=
  prepare (fun _ => .ok ()) (fun _ => false) 10 constraints 9 diamondRows
    (.replace { page := 11, slot := 0 } [.long 2, .long 3])

theorem snapshots_diamondRows : Snapshots diamondRows where
  fresh := by simp [Fresh, diamondRows, Row.ofLongs]
  columns_nodup := by simp [diamondRows, Row.ofLongs]

/-- A number and its label. -/
def labelColumns : List ColumnOrdinal := [0, 1]

/-- The keys of a number and a text. -/
def labelKinds : List ScalarKeyType := [.long, .text 9 .general]

/-- A relationship between a number and a text and another such pair of columns. -/
def labelConstraint (parent child : PageNumber) : Constraint where
  flags := { updates := true, deletes := false }
  parent := parent
  child := child
  parentColumns := labelColumns
  childColumns := labelColumns
  parentKinds := labelKinds
  childKinds := labelKinds
  selfReferenceRequiresExistingParent := false
  selfReference := not_selfReference

/-- A number referenced by two tables that reference each other. -/
def labelConstraints (first second : PageNumber) : List Constraint :=
  [updatingConstraint 10 0 first 0, updatingConstraint 10 0 second 0, labelConstraint 20 30,
    labelConstraint 30 20]

/-- A text as a key value. -/
def labelValue (text : List UInt8) : Value :=
  ⟨.text text, Row.isScalar_text text⟩

/-- A row of a number and a text, with the values assigned to them. -/
def labelRow (table : PageNumber) (text : List UInt8) (after : Option (List UInt8)) : Row :=
  { Row.ofLongs table 0 [] with
    fields := [{ column := 0, before := ⟨.long 1, Row.isScalar_long 1⟩
                 after := after.map fun _ => ⟨.long 2, Row.isScalar_long 2⟩, isExplicit := false },
      { column := 1, before := labelValue text, after := after.map labelValue
        isExplicit := false }] }

/-- The texts differ in case only, so the two rows hold each other's keys. -/
def labelRows : List Row := [.ofLongs 10 0 [1], labelRow 20 [0x61] none, labelRow 30 [0x41] none]

/-- The planned rows, with `text` as the label of both tables. -/
def labelPlan (text : List UInt8) : List Row :=
  [assignedRow 10 1 2 true, labelRow 20 [0x61] (some text), labelRow 30 [0x41] (some text)]

/-- The change of the number 1 to 2, for the constraints in one order. -/
def labelPrepare (first second : PageNumber) : Except WriteError (Option (List Row)) :=
  prepare (fun _ => .ok ()) (fun _ => false) 10 (labelConstraints first second) 99 labelRows
    (.replace { page := 11, slot := 0 } [.long 2])

/-- The order of the constraints decides between the two labels. -/
theorem labelPrepare_eq : labelPrepare 20 30 = .ok (some (labelPlan [0x61])) ∧
    labelPrepare 30 20 = .ok (some (labelPlan [0x41])) := by
  constructor <;> decide +kernel

theorem snapshots_labelRows : Snapshots labelRows where
  fresh := by simp [Fresh, labelRows, labelRow, Row.ofLongs]
  columns_nodup := by simp [labelRows, labelRow, Row.ofLongs]

/-- Both plans hand every field one value: the new number, or the text they end with. -/
theorem consistent_labelPlan {first second : PageNumber} {text : List UInt8}
    (h : ((first, second), text) ∈
      [(((20, 30) : PageNumber × PageNumber), ([0x61] : List UInt8)), ((30, 20), [0x41])]) :
    Consistent (labelConstraints first second) (labelPlan text) := by
  -- the parents of both orders hand down the same two values
  have hall : ∀ scenario ∈ [(((20, 30) : PageNumber × PageNumber), ([0x61] : List UInt8)),
        ((30, 20), [0x41])],
      ∀ constraint ∈ labelConstraints scenario.1.1 scenario.1.2, ∀ parent ∈ labelPlan scenario.2,
      ∀ pair ∈ constraint.childColumns.zip constraint.parentColumns,
      parent.table = constraint.parent → parent.current pair.2 =
        some (if pair.1 = 0 then ⟨.long 2, rfl⟩ else ⟨.text scenario.2, rfl⟩) := by
    decide +kernel
  have hvalue : ∀ child column value,
      Handed (labelConstraints first second) (labelPlan text) child column value →
      value = if column = 0 then ⟨.long 2, rfl⟩ else ⟨.text text, rfl⟩ := by
    rintro child column value ⟨constraint, parent, parentColumn, hhands, hvalue⟩
    have hties := hhands.ties
    simp only [ties, Bool.and_eq_true, beq_iff_eq] at hties
    rw [hall _ h constraint hhands.constraint_mem parent hhands.parent_mem _ hhands.column_mem
      hties.1.1] at hvalue
    exact (Option.some.inj hvalue).symm
  intro child column value value' hhanded hhanded'
  rw [hvalue _ _ _ hhanded, hvalue _ _ _ hhanded']

/-- The order of the constraints decides whose key a child receives that is handed two, and a child
does not keep the parent that only holds its old key; so neither half of the claim holds without a
condition. The order also matters to consistent plans, where a value goes round in a circle. -/
theorem prepare_diamond_follows_order :
    (¬∀ (rules : PageNumber → Except WriteError Unit) (autoIncrement : ColumnOrdinal → Bool)
      (target : PageNumber) (constraints : List Constraint) (fuel : ℕ) (rows plan : List Row)
      (change : Change), Snapshots rows → change.isDelete = false →
      prepare rules autoIncrement target constraints fuel rows change = .ok (some plan) →
      ∀ constraint ∈ constraints, constraint.flags.updates = true →
      ∀ i j (parent child : Row) (key : Key), plan[i]? = some parent → plan[j]? = some child →
      ties constraint parent child = true →
      child.key constraint.childColumns constraint.childKinds false = .ok (some key) →
      (∀ column ∈ constraint.childColumns, child.isOpen column = true) →
      HoldsKeyOf constraint plan i j) ∧
    (¬∀ (rules : PageNumber → Except WriteError Unit) (autoIncrement : ColumnOrdinal → Bool)
      (target : PageNumber) (constraints constraints' : List Constraint) (fuel fuel' : ℕ)
      (rows rows' plan plan' : List Row) (change : Change), Snapshots rows →
      change.isDelete = false → constraints.Perm constraints' → rows.Perm rows' →
      prepare rules autoIncrement target constraints fuel rows change = .ok (some plan) →
      prepare rules autoIncrement target constraints' fuel' rows' change = .ok (some plan') →
      plan.Perm plan') ∧
    (¬∀ (rules : PageNumber → Except WriteError Unit) (autoIncrement : ColumnOrdinal → Bool)
      (target : PageNumber) (constraints : List Constraint) (fuel : ℕ) (rows plan : List Row)
      (change : Change), Snapshots rows → change.isDelete = false →
      prepare rules autoIncrement target constraints fuel rows change = .ok (some plan) →
      Consistent constraints plan →
      ∀ constraint ∈ constraints, constraint.flags.updates = true →
      ∀ i j (parent child : Row), plan[i]? = some parent → plan[j]? = some child →
      ties constraint parent child = true →
      (∀ column ∈ constraint.childColumns, child.isOpen column = true) →
      HoldsKeyOf constraint plan i j) ∧
    ¬∀ (rules : PageNumber → Except WriteError Unit) (autoIncrement : ColumnOrdinal → Bool)
      (target : PageNumber) (constraints constraints' : List Constraint) (fuel fuel' : ℕ)
      (rows rows' plan plan' : List Row) (change : Change), Snapshots rows →
      change.isDelete = false → constraints.Perm constraints' → rows.Perm rows' →
      prepare rules autoIncrement target constraints fuel rows change = .ok (some plan) →
      prepare rules autoIncrement target constraints' fuel' rows' change = .ok (some plan') →
      Consistent constraints plan → Consistent constraints' plan' →
      plan.Perm plan' := by
  have hplan : diamondPrepare [updatingConstraint 10 0 20 0, updatingConstraint 10 1 20 0] =
      .ok (some (diamondPlan 3)) := by decide +kernel
  have hplan' : diamondPrepare [updatingConstraint 10 1 20 0, updatingConstraint 10 0 20 0] =
      .ok (some (diamondPlan 2)) := by decide +kernel
  refine ⟨fun hkeeps => ?_, fun horder => ?_, fun hkeeps => ?_, fun horder => ?_⟩
  · -- the child holds the second key, and the first constraint ties it to the row of the first
    obtain ⟨key, hkey⟩ : ∃ key, (assignedRow 20 1 3 false).key [0] [.long] false = .ok (some key) :=
      exists_ok_some (by decide +kernel)
    have hholds := hkeeps _ _ _ _ _ _ _ _ snapshots_diamondRows rfl hplan
      (updatingConstraint 10 0 20 0) List.mem_cons_self rfl 0 2 _ _ key rfl rfl (by decide +kernel)
      hkey (by decide)
    exact absurd hholds.holdsKeyOf (by decide +kernel)
  · have hperm := horder _ _ _ _ _ _ _ _ _ _ _ _ snapshots_diamondRows rfl (.swap _ _ _)
      (.refl _) hplan hplan'
    revert hperm
    decide +kernel
  · -- the changed row takes the child away from the one that only held its key
    have hholds := hkeeps _ _ _ _ _ _ _ _ snapshots_sharedRows rfl sharedPrepare_eq
      consistent_sharedPlan (updatingConstraint 20 0 30 0) (by simp [sharedConstraints]) rfl 2 5 _ _
      rfl rfl (by decide +kernel) (by decide)
    exact absurd hholds.holdsKeyOf (by decide +kernel)
  · have hperm := horder _ _ _ _ _ _ _ _ _ _ _ _ snapshots_labelRows rfl (.swap _ _ _) (.refl _)
      labelPrepare_eq.2 labelPrepare_eq.1 (consistent_labelPlan (by simp))
      (consistent_labelPlan (by simp))
    revert hperm
    decide +kernel

end Cascade

end Jet3
