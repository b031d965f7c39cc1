import Jet3.Relationship.CascadeValidation

/-!
# Cascading deletes

A deletion propagates along the delete-cascading constraints and nothing else changes: the rows a
cascading delete removes are the least set that contains the selected row and, with a parent row,
every child row holding its key.

* `Feeds` is the relation between a parent row and the child rows a constraint ties to it;
* `propagateStep_delete` is what one queue item does to a set of deleted rows;
* `cascadeDelete_least_closure` is the result for the whole worklist, and for an accepted plan.
-/

namespace Jet3

open Outcome

namespace Cascade

/-- The rows with exactly those at the positions `gone` deleted. -/
def markDeleted (rows : List Row) (gone : ℕ → Bool) : List Row :=
  rows.mapIdx fun i row => { row with deleted := gone i }

@[simp]
theorem length_markDeleted (rows : List Row) (gone : ℕ → Bool) :
    (markDeleted rows gone).length = rows.length := by
  simp [markDeleted]

/-- A row keeps its place when it is marked. -/
@[simp]
theorem getElem?_markDeleted (rows : List Row) (gone : ℕ → Bool) (i : ℕ) :
    (markDeleted rows gone)[i]? = rows[i]?.map fun row => { row with deleted := gone i } := by
  simp [markDeleted]

/-- The positions a constraint deletes when the row at `i` is deleted. -/
def hits (constraint : Constraint) (rows : List Row) (i j : ℕ) : Bool :=
  match rows[i]?, rows[j]? with
  | some parent, some child => constraint.flags.deletes && ties constraint parent child
  | _, _ => false

/-- A mark changes no key. -/
@[simp]
theorem key_deleted (row : Row) (deleted : Bool) (columns : List ColumnOrdinal)
    (kinds : List ScalarKeyType) (after : Bool) :
    { row with deleted }.key columns kinds after = row.key columns kinds after := rfl

/-- A mark changes no tie. -/
@[simp]
theorem ties_deleted (constraint : Constraint) (parent child : Row) (a b : Bool) :
    ties constraint { parent with deleted := a } { child with deleted := b } =
      ties constraint parent child := rfl

/-- A child of a deleted parent is deleted when it is tied to it. -/
theorem propagateChild_delete {constraint : Constraint} {parent child : Row} {before : Option Key}
    (hparent : parent.table = constraint.parent)
    (hbefore : parent.key constraint.parentColumns constraint.parentKinds false = .ok before)
    (hchild : child.table = constraint.child →
      ∃ key, child.key constraint.childColumns constraint.childKinds false = .ok key) :
    propagateChild constraint true before [] child =
      .ok ({ child with deleted := child.deleted || ties constraint parent child },
        !child.deleted && ties constraint parent child) := by
  rcases child with ⟨table, locator, fields, deleted⟩
  unfold propagateChild ties sameKey
  by_cases htable : table = constraint.child
  · subst htable
    obtain ⟨key, hkey⟩ := hchild rfl
    cases deleted
    · rw [if_neg (by simp), hbefore, hkey]
      cases hequal : equal before key <;> simp [hparent, hequal]
    · simp
  · simp [htable]

/-- The deleted positions after the row at `i` went through `constraint`. -/
def spread (constraint : Constraint) (rows : List Row) (i : ℕ) (gone : ℕ → Bool) (j : ℕ) : Bool :=
  gone j || (gone i && hits constraint rows i j)

/-- A row does not mark itself. -/
theorem spread_self (constraint : Constraint) (rows : List Row) (i : ℕ) (gone : ℕ → Bool) :
    spread constraint rows i gone i = gone i := by
  unfold spread
  cases gone i <;> rfl

/-- The row at `i` is deleted, and `constraint` propagates that. -/
def Propagates (constraint : Constraint) (rows : List Row) (i : ℕ) (gone : ℕ → Bool)
    (parent : Row) : Prop :=
  rows[i]? = some parent ∧ parent.table = constraint.parent ∧ gone i = true ∧
    constraint.flags.deletes = true

/-- What a parent that is handed on marks. -/
theorem hits_of_propagates {constraint : Constraint} {rows : List Row} {i : ℕ} {gone : ℕ → Bool}
    {parent : Row} (h : Propagates constraint rows i gone parent) (j : ℕ) :
    hits constraint rows i j = (rows[j]?.map (ties constraint parent)).getD false := by
  unfold hits
  rw [h.1, h.2.2.2]
  cases rows[j]? <;> simp

/-- Other rows mark nothing. -/
theorem spread_of_not_propagates {constraint : Constraint} {rows : List Row} {i : ℕ}
    {gone : ℕ → Bool} (h : ¬∃ parent, Propagates constraint rows i gone parent) :
    spread constraint rows i gone = gone := by
  funext j
  unfold spread hits
  rcases hparent : rows[i]? with _ | parent
  · simp
  · rcases rows[j]? with _ | child
    · simp
    · have hinactive : (gone i && (constraint.flags.deletes && ties constraint parent child))
          = false := by
        unfold ties
        by_contra hne
        simp only [Bool.not_eq_false, Bool.and_eq_true, beq_iff_eq] at hne
        exact h ⟨parent, hparent, hne.2.2.1.1, hne.1, hne.2.1⟩
      simp only [hinactive, Bool.or_false]

/-- The rows that are put on the queue are those newly marked. -/
theorem mem_pushed_iff {constraint : Constraint} {rows : List Row} {i : ℕ} {gone : ℕ → Bool}
    {parent : Row} (h : Propagates constraint rows i gone parent) (j : ℕ) :
    (j ∈ (List.range rows.length).filter fun j => !gone j && hits constraint rows i j) ↔
      gone j = false ∧ spread constraint rows i gone j = true := by
  have hlt : hits constraint rows i j = true → j < rows.length := by
    intro hhit
    rw [hits_of_propagates h] at hhit
    by_contra hle
    rw [List.getElem?_eq_none (by omega)] at hhit
    simp at hhit
  simp only [List.mem_filter, List.mem_range, spread, h.2.2.1, Bool.true_and, Bool.and_eq_true,
    Bool.not_eq_true']
  constructor
  · rintro ⟨-, hnot, hhit⟩
    simp [hnot, hhit]
  · rintro ⟨hnot, hhit⟩
    rw [hnot, Bool.false_or] at hhit
    exact ⟨hlt hhit, hnot, hhit⟩

/-- The children of a deleted parent, all at once. -/
theorem propagateChildren_delete {constraint : Constraint} {rows : List Row} {i : ℕ}
    {gone : ℕ → Bool} {parent : Row} {before : Option Key}
    (h : Propagates constraint rows i gone parent)
    (hbefore : parent.key constraint.parentColumns constraint.parentKinds false = .ok before)
    (hchildren : ∀ child ∈ rows, child.table = constraint.child →
      ∃ key, child.key constraint.childColumns constraint.childKinds false = .ok key) :
    ∃ results, (markDeleted rows gone).mapM (propagateChild constraint true before []) =
        .ok results ∧ results.map Prod.fst = markDeleted rows (spread constraint rows i gone) ∧
      ∀ j, (results[j]?.map Prod.snd).getD false = (!gone j && hits constraint rows i j) := by
  refine ⟨(markDeleted rows gone).map fun child =>
    ({ child with deleted := child.deleted || ties constraint parent child },
      !child.deleted && ties constraint parent child), ?_, ?_, fun j => ?_⟩
  · -- every child is marked where it is tied to the parent
    refine mapM_eq_ok_map fun child hchild => propagateChild_delete h.2.1 hbefore ?_
    obtain ⟨j, hj⟩ := List.mem_iff_getElem?.mp hchild
    rw [getElem?_markDeleted, Option.map_eq_some_iff] at hj
    obtain ⟨row, hrow, rfl⟩ := hj
    exact hchildren row (List.mem_of_getElem? hrow)
  · refine List.ext_getElem? fun j => ?_
    simp only [List.map_map, List.getElem?_map, getElem?_markDeleted, Option.map_map, spread,
      h.2.2.1, hits_of_propagates h, Bool.true_and]
    cases rows[j]? <;> rfl
  · simp only [List.getElem?_map, getElem?_markDeleted, Option.map_map, hits_of_propagates h]
    rcases rows[j]? with _ | row
    · simp
    · rfl

/-- One constraint deletes the rows it ties to a deleted row, and queues those it deleted. -/
theorem propagateConstraint_delete {constraints : List Constraint} {rows : List Row}
    (hfresh : Fresh rows) (hencodes : Encodes constraints rows) {constraint : Constraint}
    (hconstraint : constraint ∈ constraints) (i : ℕ) (gone : ℕ → Bool) (queue : List ℕ) :
    ∃ pushed, propagateConstraint i (markDeleted rows gone, queue) constraint =
        .ok (markDeleted rows (spread constraint rows i gone), queue ++ pushed) ∧
      pushed.Nodup ∧
      ∀ j, j ∈ pushed ↔ gone j = false ∧ spread constraint rows i gone j = true := by
  have hassigned : ∀ parent, rows[i]? = some parent →
      { parent with deleted := gone i }.assigned constraint.parentColumns = gone i :=
    fun parent hparent => assigned_of_fresh (fun field hfield =>
      ((hfresh parent (List.mem_of_getElem? hparent)).2 field hfield).1) _ _
  -- the constraint hands the deletion on, or there is nothing to do for it
  by_cases hactive : ∃ parent, Propagates constraint rows i gone parent
  · obtain ⟨parent, hactive⟩ := hactive
    have hmem : parent ∈ rows := List.mem_of_getElem? hactive.1
    obtain ⟨before, hbefore⟩ := (hencodes constraint hconstraint parent hmem).1 hactive.2.1
    obtain ⟨results, hresults, hrows, hchanged⟩ := propagateChildren_delete hactive hbefore
      fun child hchild => (hencodes constraint hconstraint child hchild).2
    have hlength : results.length = rows.length := by
      rw [← List.length_map (f := Prod.fst), hrows, length_markDeleted]
    refine ⟨_, ?_, List.nodup_range.filter _, mem_pushed_iff hactive⟩
    simp only [propagateConstraint, getElem?_markDeleted, hactive.1, Option.map_some]
    rw [if_neg (by rw [hassigned parent hactive.1]; simp [Constraint.cascades, hactive.2])]
    simp only [replacements, hactive.2.2.1, key_deleted, hbefore, if_true, bind_ok_iff,
      Except.ok.injEq, exists_eq_left', pure_ok_iff, hresults, hrows, hlength, hchanged]
  · refine ⟨[], ?_, List.nodup_nil, fun j => ?_⟩
    · rw [spread_of_not_propagates hactive, List.append_nil]
      simp only [propagateConstraint, getElem?_markDeleted]
      rcases hparent : rows[i]? with _ | parent
      · rfl
      · simp only [Option.map_some]
        rw [if_pos]
        · rfl
        · rw [hassigned parent hparent]
          by_contra hnone
          simp only [not_or, not_not, Constraint.cascades] at hnone
          refine hactive ⟨parent, hparent, hnone.1, hnone.2.1, ?_⟩
          simpa [hnone.2.1] using hnone.2.2
    · rw [spread_of_not_propagates hactive]
      cases gone j <;> simp

/-- The deleted positions after the row at `i` went through every constraint. -/
def spreadAll (constraints : List Constraint) (rows : List Row) (i : ℕ) (gone : ℕ → Bool) (j : ℕ) :
    Bool :=
  gone j || (gone i && constraints.any fun constraint => hits constraint rows i j)

/-- One queue item deletes the rows some constraint ties to it, and pushes each of them once. -/
theorem propagateStep_delete {constraints : List Constraint} {rows : List Row}
    (hfresh : Fresh rows) (hencodes : Encodes constraints rows) (i : ℕ) (gone : ℕ → Bool) :
    ∃ pushed, propagateStep constraints (markDeleted rows gone) i =
        .ok (markDeleted rows (spreadAll constraints rows i gone), pushed) ∧
      pushed.Nodup ∧
      ∀ j, j ∈ pushed ↔ gone j = false ∧ spreadAll constraints rows i gone j = true := by
  -- the constraints one after the other, with what was marked before
  suffices key : ∀ (rest : List Constraint) (queue : List ℕ) (gone : ℕ → Bool), rest ⊆ constraints →
      ∃ pushed, rest.foldlM (propagateConstraint i) (markDeleted rows gone, queue) =
          .ok (markDeleted rows (spreadAll rest rows i gone), queue ++ pushed) ∧ pushed.Nodup ∧
        ∀ j, j ∈ pushed ↔ gone j = false ∧ spreadAll rest rows i gone j = true by
    exact key constraints [] gone fun _ h => h
  intro rest
  induction rest with
  | nil =>
    intro queue gone _
    have hall : spreadAll [] rows i gone = gone := by
      funext j
      simp [spreadAll]
    refine ⟨[], by simp [hall, pure, Except.pure], List.nodup_nil, fun j => ?_⟩
    rw [hall]
    cases gone j <;> simp
  | cons constraint rest ih =>
    intro queue gone hsub
    obtain ⟨first, hfirst, hnodup, hmem⟩ := propagateConstraint_delete hfresh hencodes
      (hsub List.mem_cons_self) i gone queue
    obtain ⟨others, hothers, hnodup', hmem'⟩ := ih (queue ++ first) (spread constraint rows i gone)
      fun c hc => hsub (List.mem_cons_of_mem constraint hc)
    have hall : spreadAll rest rows i (spread constraint rows i gone) =
        spreadAll (constraint :: rest) rows i gone := by
      funext j
      simp only [spreadAll, spread_self, List.any_cons]
      simp only [spread]
      cases gone j <;> cases gone i <;> simp
    rw [hall] at hothers hmem'
    refine ⟨first ++ others, ?_, ?_, fun j => ?_⟩
    · simp only [List.foldlM_cons, bind_ok_iff]
      exact ⟨_, hfirst, by rw [hothers, List.append_assoc]⟩
    · refine List.nodup_append.mpr ⟨hnodup, hnodup', ?_⟩
      rintro a ha _ hb rfl
      -- a row that the first constraint has marked is not pushed again
      have hspread := ((hmem a).mp ha).2
      rw [((hmem' a).mp hb).1] at hspread
      exact absurd hspread (by simp)
    · rw [List.mem_append, hmem, hmem']
      simp only [spreadAll, spread, List.any_cons]
      cases gone j <;> cases gone i <;> cases hits constraint rows i j <;> simp

/-! ## The whole worklist -/

/-- A row feeds another one where some constraint marks it. -/
theorem feeds_iff_any_hits {constraints : List Constraint} {rows : List Row} {i j : ℕ} :
    Feeds constraints true rows i j ↔
      (constraints.any fun constraint => hits constraint rows i j) = true := by
  rw [List.any_eq_true]
  refine exists_congr fun constraint => and_congr_right fun _ => ?_
  unfold hits
  rcases rows[i]? with _ | parent <;> rcases rows[j]? with _ | child <;>
    simp [Constraint.cascades]

/-- The sets of positions that contain the selected row and, with a row, all it deletes. -/
def DeleteClosed (constraints : List Constraint) (rows : List Row) (selected : ℕ) :
    Set (Set ℕ) :=
  { closed | selected ∈ closed ∧
      ∀ i ∈ closed, ∀ j, Feeds constraints true rows i j → j ∈ closed }

/-- The worklist invariant of a deletion: every deleted row has to be, and what it deletes is
deleted unless it still waits in the queue. -/
structure DeleteInvariant (constraints : List Constraint) (rows : List Row) (selected : ℕ)
    (gone : ℕ → Bool) (queue : List ℕ) : Prop where
  start : gone selected = true
  least : ∀ closed ∈ DeleteClosed constraints rows selected, ∀ j, gone j = true → j ∈ closed
  queued : ∀ q ∈ queue, gone q = true
  closed : ∀ i, gone i = true → i ∈ queue ∨ ∀ j, Feeds constraints true rows i j → gone j = true

/-- One queue item keeps the invariant. -/
theorem DeleteInvariant.step {constraints : List Constraint} {rows : List Row} {selected i : ℕ}
    {gone : ℕ → Bool} {rest pushed : List ℕ}
    (h : DeleteInvariant constraints rows selected gone (i :: rest))
    (hpushed : ∀ j, j ∈ pushed ↔
      gone j = false ∧ spreadAll constraints rows i gone j = true) :
    DeleteInvariant constraints rows selected (spreadAll constraints rows i gone)
      (rest ++ pushed) := by
  have hi : gone i = true := h.queued i List.mem_cons_self
  have hspread : ∀ j, spreadAll constraints rows i gone j = true ↔
      gone j = true ∨ Feeds constraints true rows i j := by
    intro j
    rw [feeds_iff_any_hits, spreadAll, hi, Bool.true_and, Bool.or_eq_true]
  refine ⟨(hspread _).mpr (.inl h.start), fun closed hclosed j hj => ?_, fun q hq => ?_,
    fun k hk => ?_⟩
  · rcases (hspread j).mp hj with hgone | hfeeds
    · exact h.least closed hclosed j hgone
    · exact hclosed.2 i (h.least closed hclosed i hi) j hfeeds
  · rcases List.mem_append.mp hq with hq | hq
    · exact (hspread q).mpr (.inl (h.queued q (List.mem_cons_of_mem i hq)))
    · exact ((hpushed q).mp hq).2
  · by_cases hgone : gone k = true
    · rcases h.closed k hgone with hqueue | hfed
      · rcases List.mem_cons.mp hqueue with rfl | hqueue
        · -- the processed row itself: all it deletes is deleted now
          exact .inr fun j hfeeds => (hspread j).mpr (.inr hfeeds)
        · exact .inl (List.mem_append_left _ hqueue)
      · exact .inr fun j hfeeds => (hspread j).mpr (.inl (hfed j hfeeds))
    · rw [Bool.not_eq_true] at hgone
      exact .inl (List.mem_append_right _ ((hpushed k).mpr ⟨hgone, hk⟩))

/-- One while the row at `j` is there to be deleted. -/
def kept (rows : List Row) (j : ℕ) : ℕ :=
  if (rows[j]?.map Row.deleted).getD true then 0 else 1

/-- A row is kept until it is marked. -/
theorem kept_markDeleted (rows : List Row) (gone : ℕ → Bool) (j : ℕ) :
    kept (markDeleted rows gone) j = if j < rows.length ∧ gone j = false then 1 else 0 := by
  unfold kept
  rw [getElem?_markDeleted]
  rcases Nat.lt_or_ge j rows.length with hlt | hge
  · rw [List.getElem?_eq_getElem hlt]
    cases hgone : gone j <;> simp [hlt]
  · rw [List.getElem?_eq_none hge]
    simp [Nat.not_lt.mpr hge]

/-- A queue item only deletes rows of the list. -/
theorem lt_of_mem_pushed {constraints : List Constraint} {rows : List Row} {i j : ℕ}
    {gone : ℕ → Bool} (h : gone j = false ∧ spreadAll constraints rows i gone j = true) :
    j < rows.length := by
  obtain ⟨hgone, hspread⟩ := h
  rw [spreadAll, hgone, Bool.false_or, Bool.and_eq_true, ← feeds_iff_any_hits] at hspread
  obtain ⟨-, -, -, -, -, child, -, hchild, -⟩ := hspread
  exact (List.getElem?_eq_some_iff.mp hchild).1

/-- The worklist of a deletion ends: every push deletes a row. -/
theorem propagate_delete_ends {constraints : List Constraint} {rows : List Row}
    (hfresh : Fresh rows) (hencodes : Encodes constraints rows) {selected : ℕ}
    (hselected : selected < rows.length) (gone : ℕ → Bool) :
    ∃ fuel final, propagate constraints fuel (markDeleted rows gone) selected =
      .ok (some final) := by
  -- every row is pushed at most once, when it is marked
  let Marked : List Row → Prop := fun s => ∃ gone, s = markDeleted rows gone
  have hstep : ∀ s i s' pushed, Marked s → propagateStep constraints s i = .ok (s', pushed) →
      Marked s' ∧ (∀ j ∈ pushed, j < rows.length) ∧ pushed.Nodup ∧
        ∀ j, pushed.count j + kept s' j ≤ kept s j := by
    rintro _ i s' pushed ⟨gone, rfl⟩ h
    obtain ⟨_, hok, hnodup, hmem⟩ := propagateStep_delete hfresh hencodes i gone
    rw [hok] at h
    cases h
    refine ⟨⟨_, rfl⟩, fun j hj => lt_of_mem_pushed ((hmem j).mp hj), hnodup, fun j => ?_⟩
    rw [kept_markDeleted, kept_markDeleted]
    by_cases hj : j ∈ pushed
    · have hcount := List.nodup_iff_count_le_one.mp hnodup j
      have hlt := lt_of_mem_pushed ((hmem j).mp hj)
      simp only [hlt, ((hmem j).mp hj).1, ((hmem j).mp hj).2]
      simpa using hcount
    · rw [List.count_eq_zero_of_not_mem hj, Nat.zero_add]
      have hspread : gone j = true → spreadAll constraints rows i gone j = true := fun hgone => by
        rw [spreadAll, hgone, Bool.true_or]
      cases hgone : gone j
      · split <;> simp [*]
      · simp [hspread hgone]
  exact Worklist.exists_run_ok (fun s _ => Marked s)
    (fun s i _ s' pushed hs h => (hstep s i s' pushed hs h).1)
    (by
      rintro _ i _ ⟨gone, rfl⟩
      obtain ⟨pushed, hok, -⟩ := propagateStep_delete hfresh hencodes i gone
      exact ⟨_, hok⟩)
    (fun s i _ s' pushed hs h q hq =>
      Finset.mem_range.mpr ((hstep s i s' pushed hs h).2.1 q hq))
    (fun _ _ _ _ _ _ _ _ _ => (trivial : (fun _ _ => True) _ _))
    (fun s i _ s' pushed hs h => List.nodup_iff_count_le_one.mp (hstep s i s' pushed hs h).2.2.1)
    (fun s i _ s' pushed hs h q _ => (hstep s i s' pushed hs h).2.2.2 q) ⟨gone, rfl⟩
    (by simpa using hselected)

/-- Only the selected row is deleted at the start. -/
theorem DeleteInvariant.init (constraints : List Constraint) (rows : List Row) (selected : ℕ) :
    DeleteInvariant constraints rows selected (· == selected) [selected] where
  start := by simp
  least closed hclosed j hj := by
    rw [beq_iff_eq] at hj
    exact hj ▸ hclosed.1
  queued q hq := by simpa using hq
  closed i hi := .inl (by simpa using hi)

/-- What the worklist of a deletion computes: the least closed set of rows. -/
theorem propagate_delete {constraints : List Constraint} {rows : List Row}
    (hfresh : Fresh rows) (hencodes : Encodes constraints rows) {selected fuel : ℕ}
    {final : List Row}
    (h : propagate constraints fuel (markDeleted rows (· == selected)) selected =
      .ok (some final)) :
    ∃ gone, final = markDeleted rows gone ∧
      IsLeast (DeleteClosed constraints rows selected) { j | gone j = true } := by
  -- what is marked is closed but for the rows that wait in the queue
  have hrun := Worklist.run_induction
    (fun s queue => ∃ gone, s = markDeleted rows gone ∧
      DeleteInvariant constraints rows selected gone queue)
    (fun s i rest s' pushed hinv hstep => by
      obtain ⟨gone, rfl, hinv⟩ := hinv
      obtain ⟨_, hok, -, hmem⟩ := propagateStep_delete hfresh hencodes i gone
      rw [hok] at hstep
      cases hstep
      exact ⟨_, rfl, hinv.step hmem⟩)
    ⟨_, rfl, DeleteInvariant.init constraints rows selected⟩ h
  obtain ⟨gone, rfl, hinv⟩ := hrun
  refine ⟨gone, rfl, ⟨hinv.start, fun i hi j hfeeds => ?_⟩, fun closed hclosed j hj =>
    hinv.least closed hclosed j hj⟩
  rcases hinv.closed i hi with hqueue | hfed
  · exact absurd hqueue List.not_mem_nil
  · exact hfed j hfeeds

/-! ## Accepted deletions -/

/-- A deletion marks the row it names. -/
theorem select_delete {autoIncrement : ColumnOrdinal → Bool} {target : PageNumber}
    {locator : RowLocator} {rows start : List Row} {selected : ℕ} (hfresh : Fresh rows)
    (h : select autoIncrement target (.delete locator) rows = .ok (start, selected)) :
    selected < rows.length ∧ start = markDeleted rows (· == selected) := by
  simp only [select, bind_ok_iff, okOr_ok_iff, assignRow_delete, Except.ok.injEq, exists_eq_left',
    pure_ok_iff, Prod.mk.injEq] at h
  obtain ⟨i, -, row, hrow, rfl, rfl⟩ := h
  refine ⟨(List.getElem?_eq_some_iff.mp hrow).1, List.ext_getElem? fun j => ?_⟩
  rw [getElem?_markDeleted, List.getElem?_set]
  by_cases hj : i = j
  · subst hj
    rw [if_pos rfl, if_pos (List.getElem?_eq_some_iff.mp hrow).1, hrow, Option.map_some,
      beq_self_eq_true]
  · rw [if_neg hj]
    rcases hother : rows[j]? with _ | other
    · rfl
    · have hdeleted := (hfresh other (List.mem_of_getElem? hother)).1
      have hne : (j == i) = false := beq_eq_false_iff_ne.mpr (Ne.symm hj)
      rw [Option.map_some, hne, ← hdeleted]

/-- Without assignments a key is after the change what it was before. -/
theorem key_after_of_fresh {row : Row} (hrow : ∀ field ∈ row.fields, field.after = none)
    (columns : List ColumnOrdinal) (kinds : List ScalarKeyType) :
    row.key columns kinds true = row.key columns kinds false := by
  have hvalue : ∀ column field, row.field column = some field → field.current = field.before := by
    intro column field hfield
    have hafter := hrow field (List.mem_of_find?_eq_some hfield)
    rw [Field.current, hafter, Option.getD_none]
  have hread : (fun column => do
      let field ← okOr (row.field column) (WriteError.mismatch "cascade key column absent")
      return (if true = true then field.current else field.before).value) = fun column => do
      let field ← okOr (row.field column) (WriteError.mismatch "cascade key column absent")
      return (if false = true then field.current else field.before).value := by
    funext column
    rcases hfield : row.field column with _ | field
    · rfl
    · simp [okOr, hvalue column field hfield]
  unfold Row.key Row.values
  rw [hread]

/-- The positions of the rows that are deleted. -/
def deletedPositions (rows : List Row) : Set ℕ :=
  { j | ∃ row, rows[j]? = some row ∧ row.deleted = true }

/-- The rows of the result, with their marks. -/
theorem mem_markDeleted {rows : List Row} {gone : ℕ → Bool} {row : Row} :
    row ∈ markDeleted rows gone ↔
      ∃ (j : ℕ) (original : Row), rows[j]? = some original ∧
        row = { original with deleted := gone j } := by
  rw [List.mem_iff_getElem?]
  refine exists_congr fun j => ?_
  rw [getElem?_markDeleted, Option.map_eq_some_iff]
  exact exists_congr fun original => and_congr_right fun _ => eq_comm

/-- A surviving child is tied to no deleted parent: a cascading constraint would have deleted it,
and the guards refuse any other. -/
theorem ties_deletedParent {constraints : List Constraint} {rows : List Row} {selected : ℕ}
    {gone : ℕ → Bool} {locator : RowLocator} {u : Unit} (hfresh : Fresh rows)
    (hleast : IsLeast (DeleteClosed constraints rows selected) { j | gone j = true })
    (hguards : guards (markDeleted rows gone) constraints selected (.delete locator) = .ok u)
    {constraint : Constraint} (hconstraint : constraint ∈ constraints) {parent child : Row}
    (hparent : parent ∈ markDeleted rows gone) (hdeleted : parent.deleted = true)
    (hchild : child ∈ markDeleted rows gone) (hkept : child.deleted = false) :
    ties constraint parent child = false := by
  by_contra hties
  rw [Bool.not_eq_false] at hties
  obtain ⟨i, parent, hi, rfl⟩ := mem_markDeleted.mp hparent
  obtain ⟨j, child, hj, rfl⟩ := mem_markDeleted.mp hchild
  simp only [ties_deleted] at hties hdeleted hkept
  cases hcascades : constraint.cascades true
  · -- the guards compared the two keys
    simp only [ties, Bool.and_eq_true, beq_iff_eq] at hties
    have hrestricts : Restricts constraint { parent with deleted := gone i } :=
      ⟨hties.1.1, by rw [assigned_of_fresh fun field hfield =>
        ((hfresh parent (List.mem_of_getElem? hi)).2 field hfield).1, hdeleted],
        by rw [hdeleted, hcascades]⟩
    obtain ⟨key, hkey, hothers⟩ := guards_ok_iff.mp hguards constraint hconstraint
      ({ parent with deleted := gone i }, i)
      (List.mk_mem_zipIdx_iff_getElem?.mpr (by rw [getElem?_markDeleted, hi]; rfl)) hrestricts
    obtain ⟨after, hafter, hne⟩ := hothers ({ child with deleted := gone j }, j)
      (List.mk_mem_zipIdx_iff_getElem?.mpr (by rw [getElem?_markDeleted, hj]; rfl))
      ⟨hties.1.2, hkept, by simp [Change.isReplace]⟩
    rw [key_deleted] at hkey hafter
    rw [key_after_of_fresh fun field hfield =>
      ((hfresh child (List.mem_of_getElem? hj)).2 field hfield).1] at hafter
    rw [sameKey, hkey, hafter] at hties
    exact absurd (hne.symm.trans hties.2) (by simp)
  · have hgone : gone j = true := hleast.1.2 i hdeleted j
      ⟨constraint, hconstraint, hcascades, parent, child, hi, hj, hties⟩
    rw [hgone] at hkept
    exact absurd hkept (by simp)

/-- The marks are the positions that are deleted. -/
theorem deletedPositions_markDeleted {constraints : List Constraint} {rows : List Row}
    {selected : ℕ} {gone : ℕ → Bool} (hlt : selected < rows.length)
    (hleast : IsLeast (DeleteClosed constraints rows selected) { j | gone j = true }) :
    deletedPositions (markDeleted rows gone) = { j | gone j = true } := by
  have hrange : { j | j < rows.length } ∈ DeleteClosed constraints rows selected := by
    refine ⟨hlt, fun i _ j hfeeds => ?_⟩
    obtain ⟨-, -, -, -, child, -, hchild, -⟩ := hfeeds
    exact (List.getElem?_eq_some_iff.mp hchild).1
  ext j
  simp only [deletedPositions, getElem?_markDeleted, Option.map_eq_some_iff, Set.mem_ofPred_eq]
  constructor
  · rintro ⟨_, ⟨row, -, rfl⟩, hgone⟩
    exact hgone
  · intro hgone
    exact ⟨_, ⟨_, List.getElem?_eq_getElem (hleast.2 hrange hgone), rfl⟩, hgone⟩

/-- Nothing but the deletion marks changed. -/
theorem markDeleted_undo {rows : List Row} (hfresh : Fresh rows) (gone : ℕ → Bool) :
    (markDeleted rows gone).map (fun row => { row with deleted := false }) = rows := by
  refine List.ext_getElem? fun j => ?_
  rw [List.getElem?_map, getElem?_markDeleted, Option.map_map]
  rcases hrow : rows[j]? with _ | row
  · rfl
  · have hdeleted := (hfresh row (List.mem_of_getElem? hrow)).1
    simp only [Option.map_some, Function.comp_apply, ← hdeleted]

/-- A cascading delete removes exactly the least closure. From rows that satisfy the constraints,
the worklist of a deletion ends; the rows it deletes are the least set that contains the selected
row and, with a parent, every child that holds its key under a delete-cascading constraint; no
other row and no field changes. In an accepted plan no surviving child of any constraint holds the
key of a deleted parent, and every key it refers to has a surviving parent. -/
theorem cascadeDelete_least_closure {autoIncrement : ColumnOrdinal → Bool} {target : PageNumber}
    {constraints : List Constraint} {locator : RowLocator} {rows start : List Row} {selected : ℕ}
    (hfresh : Fresh rows) (hbefore : validate rows constraints false = .ok ())
    (hselect : select autoIncrement target (.delete locator) rows = .ok (start, selected)) :
    ∃ final, (∃ fuel, propagate constraints fuel start selected = .ok (some final)) ∧
      IsLeast (DeleteClosed constraints rows selected) (deletedPositions final) ∧
      final.map (fun row => { row with deleted := false }) = rows ∧
      ∀ rules fuel plan,
        prepare rules autoIncrement target constraints fuel rows (.delete locator) =
          .ok (some plan) →
        plan = final ∧ ∀ constraint ∈ constraints, ∀ child ∈ plan, child.deleted = false →
          (∀ parent ∈ plan, parent.deleted = true → ties constraint parent child = false) ∧
          (child.table = constraint.child → ∀ key,
            child.key constraint.childColumns constraint.childKinds true = .ok (some key) →
            ∃ parent ∈ plan, parent.table = constraint.parent ∧ parent.deleted = false ∧
              ∃ held, parent.key constraint.parentColumns constraint.parentKinds true =
                .ok (some held) ∧ held.bytes = key.bytes) := by
  obtain ⟨hlt, rfl⟩ := select_delete hfresh hselect
  have hencodes : Encodes constraints rows := validate_before hbefore
  obtain ⟨fuel, final, hrun⟩ := propagate_delete_ends hfresh hencodes hlt (· == selected)
  obtain ⟨gone, rfl, hleast⟩ := propagate_delete hfresh hencodes hrun
  refine ⟨_, ⟨fuel, hrun⟩, ?_, markDeleted_undo hfresh gone, ?_⟩
  · rw [deletedPositions_markDeleted hlt hleast]
    exact hleast
  · intro rules fuel' plan hprepare
    obtain ⟨-, start, selected', hselect', hrun', -, hguards, hafter⟩ :=
      prepare_ok_some_iff.mp hprepare
    rw [hselect'] at hselect
    cases hselect
    -- the plan is where this run has ended
    obtain rfl := propagate_unique hrun' hrun
    refine ⟨rfl, fun constraint hconstraint child hchild hkept => ⟨fun parent hparent hdeleted =>
      ties_deletedParent hfresh hleast hguards hconstraint hparent hdeleted hchild hkept,
      fun htable key hkey => ?_⟩⟩
    -- the check after the change has looked up every key that is left
    obtain ⟨-, -, hchildren⟩ :=
      validateConstraint_ok_iff.mp (forM_ok_iff.mp hafter constraint hconstraint)
    obtain ⟨_, hkey', hheld⟩ := hchildren child hchild htable (by simp [hkept])
    rw [hkey] at hkey'
    cases hkey'
    obtain ⟨⟨held, hmem, hbytes⟩, -⟩ := hheld key rfl
    obtain ⟨parent, hparent, hptable, hpkept, hheld⟩ := mem_parentKeys.mp hmem
    exact ⟨parent, hparent, hptable, by simpa using hpkept, held, hheld, hbytes⟩

/-- Customers 1 and 2, and an order of each. -/
def customerOrders : List Row :=
  [Row.ofLongs 10 0 [1], Row.ofLongs 10 1 [2], Row.ofLongs 20 0 [7, 1], Row.ofLongs 20 1 [8, 2]]

/-- Orders are deleted with their customer. -/
def customerOrdersConstraint : Constraint :=
  .ofLong { updates := false, deletes := true } 10 0 20 1

/-- No row is marked at the start. -/
theorem fresh_customerOrders : Fresh customerOrders := by
  simp [Fresh, customerOrders, Row.ofLongs]

/-- Deleting the first customer ends, with the least set of deleted rows. -/
theorem cascadeDelete_least_closure_customerOrders :
    ∃ start final fuel, propagate [customerOrdersConstraint] fuel start 0 = .ok (some final) ∧
      IsLeast (DeleteClosed [customerOrdersConstraint] customerOrders 0)
        (deletedPositions final) := by
  obtain ⟨⟨⟩, hbefore⟩ : ∃ u, validate customerOrders [customerOrdersConstraint] false = .ok u :=
    exists_ok (by decide +kernel)
  have hselect : select (fun _ => false) 10 (.delete { page := 11, slot := 0 }) customerOrders =
      .ok (markDeleted customerOrders (· == 0), 0) := rfl
  obtain ⟨final, ⟨fuel, hrun⟩, hleast, -⟩ :=
    cascadeDelete_least_closure fresh_customerOrders hbefore hselect
  exact ⟨_, final, fuel, hrun, hleast⟩

end Cascade

end Jet3
