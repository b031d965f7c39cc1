import Jet3.Catalog.NameOrder
import Jet3.Library.Reach
import Jet3.Relationship.Resolve

/-!
# Connected relationships

Before a change of several tables, the enforced relationships connected to its target are collected:
the groups of the relationship catalog are scanned for those that touch a known table, each enforced
one adds its two tables, and the scan is repeated until nothing is added.

* `Progress` is the invariant of the scan;
* `component_ok` says what the collected relationships are.
-/

namespace Jet3.RelationshipCatalog

open Outcome

/-- Whether a name is one of the two endpoints. -/
def Record.touchedBy (record : Record) (name : List UInt8) : Bool :=
  catalogNamesEqual name record.parent record.order || catalogNamesEqual name record.child
    record.order

/-- The names of a record that has to be resolved. -/
def Record.names (record : Record) : List (List UInt8) :=
  [record.name, record.parent, record.child, record.parentColumn, record.childColumn]

/-- The names of a record are ones a catalog can have. -/
def checkNames (record : Record) : Except WriteError Unit :=
  refuseIf (record.name.length > 63 ∨
      record.names.any (fun name => !(validateCatalogName name record.order).isOk) = true)
    (.unsupported "unresolved relationship name")

/-- What the scan has found. -/
structure Scan where
  names : List (List UInt8)
  constraints : List Constraint
  advanced : Bool

/-- One group of the scan: nothing where no known name touches it. -/
def visit (database : DatabaseReader) (scan : Scan) (group : List Record) :
    Except WriteError (Option Scan) := do
  let first ← okOr group.head? (.mismatch "empty relationship")
  if scan.names.any first.touchedBy = false then return none
  else
    refuseIf first.interpreted.isNone (.unsupported "relationship catalog flags")
    let ordered ← ordered group
    forM ordered checkNames
    if enforced ordered = false then return some scan
    else
      let constraint ← resolve database ordered
      return some { names := scan.names ++ [first.parent, first.child]
                    constraints := scan.constraints ++ [constraint], advanced := true }

/-- One scan of the groups not selected yet; it leaves those it does not select. -/
def pass (database : DatabaseReader) : List (List Record) → Scan →
    Except WriteError (List (List Record) × Scan)
  | [], scan => .ok ([], scan)
  | group :: rest, scan => do
    let visited ← visit database scan group
    match visited with
    | none => do
      let (left, scan) ← pass database rest scan
      return (group :: left, scan)
    | some scan => pass database rest scan

/-- A group that is visited is touched by a known name, and its relationship is resolved. -/
theorem visit_some {database : DatabaseReader} {scan scan' : Scan} {group : List Record}
    (h : visit database scan group = .ok (some scan')) :
    ∃ first records, group.head? = some first ∧ (∃ name ∈ scan.names, first.touchedBy name = true) ∧
      first.interpreted.isSome ∧ ordered group = .ok records ∧
      (∀ record ∈ records, checkNames record = .ok ()) ∧
      (enforced records = false ∧ scan' = scan ∨
        enforced records = true ∧ ∃ constraint, resolve database records = .ok constraint ∧
          scan' = { names := scan.names ++ [first.parent, first.child]
                    constraints := scan.constraints ++ [constraint], advanced := true }) := by
  simp only [visit, bind_ok_iff, okOr_ok_iff] at h
  obtain ⟨first, hfirst, h⟩ := h
  split at h
  · cases h
  · rename_i htouched
    simp only [bind_ok_iff, exists_unit, refuseIf_ok_iff, forM_ok_iff] at h
    obtain ⟨hinterpreted, records, hrecords, hnames, h⟩ := h
    rw [Bool.not_eq_false, List.any_eq_true] at htouched
    rw [Option.isNone_iff_eq_none, ← ne_eq, Option.ne_none_iff_isSome] at hinterpreted
    refine ⟨first, records, hfirst, htouched, hinterpreted, hrecords, hnames, ?_⟩
    split at h
    · rename_i henforced
      exact .inl ⟨henforced, (Option.some.inj (Except.ok.inj h)).symm⟩
    · rename_i henforced
      obtain ⟨constraint, hconstraint, h⟩ := bind_ok_iff.mp h
      rw [Bool.not_eq_false] at henforced
      exact .inr ⟨henforced, constraint, hconstraint, (Option.some.inj (Except.ok.inj h)).symm⟩

/-- A group that is left is touched by no known name. -/
theorem visit_none {database : DatabaseReader} {scan : Scan} {group : List Record}
    (h : visit database scan group = .ok none) :
    ∃ first, group.head? = some first ∧ ∀ name ∈ scan.names, ¬first.touchedBy name = true := by
  simp only [visit, bind_ok_iff, okOr_ok_iff] at h
  obtain ⟨first, hfirst, h⟩ := h
  split at h
  · rename_i htouched
    exact ⟨first, hfirst, fun name hname htouches =>
      absurd (List.any_eq_true.mpr ⟨name, hname, htouches⟩) (by rw [htouched]; decide)⟩
  · simp only [bind_ok_iff, exists_unit] at h
    obtain ⟨-, records, -, -, h⟩ := h
    split at h
    · cases h
    · obtain ⟨constraint, -, h⟩ := bind_ok_iff.mp h
      cases h

/-- A pass visits the first group, or leaves it. -/
theorem pass_cons_ok {database : DatabaseReader} {group : List Record}
    {rest left : List (List Record)}
    {scan scan' : Scan} (h : pass database (group :: rest) scan = .ok (left, scan')) :
    (∃ left', visit database scan group = .ok none ∧ pass database rest scan = .ok (left', scan') ∧
        left = group :: left') ∨
      ∃ next, visit database scan group = .ok (some next) ∧ pass database rest next =
        .ok (left, scan')
      := by
  obtain ⟨visited, hvisited, h⟩ := bind_ok_iff.mp h
  cases visited with
  | none =>
    obtain ⟨result, hresult, h⟩ := bind_ok_iff.mp h
    cases h
    exact .inl ⟨result.1, hvisited, hresult, rfl⟩
  | some next => exact .inr ⟨next, hvisited, h⟩

/-- A scan that advances leaves fewer groups. -/
theorem pass_length {database : DatabaseReader} {pending left : List (List Record)}
    {scan scan' : Scan} (h : pass database pending scan = .ok (left, scan')) :
    left.length ≤ pending.length ∧
      (scan'.advanced = true → scan.advanced = true ∨ left.length < pending.length) := by
  induction pending generalizing scan left with
  | nil =>
    cases h
    exact ⟨le_rfl, .inl⟩
  | cons group rest ih =>
    rcases pass_cons_ok h with ⟨left', -, hrest, rfl⟩ | ⟨next, -, hrest⟩
    · obtain ⟨hle, hadvanced⟩ := ih hrest
      refine ⟨Nat.succ_le_succ hle, fun h => (hadvanced h).imp_right fun hlt => ?_⟩
      exact Nat.succ_lt_succ hlt
    · have hle := (ih hrest).1
      rw [List.length_cons]
      exact ⟨by omega, fun _ => .inr (by omega)⟩

/-- Scans the groups until nothing is added. -/
def closure (database : DatabaseReader) (pending : List (List Record)) (scan : Scan) :
    Except WriteError Scan :=
  match hpass : pass database pending { scan with advanced := false } with
  | .error error => .error error
  | .ok (left, next) =>
    if hadvanced : next.advanced = true then
      have : left.length < pending.length :=
        ((pass_length hpass).2 hadvanced).resolve_left (by simp)
      closure database left next
    else .ok next
termination_by pending.length

/-- The checks of a table of the component, once for each definition page. -/
def checkTable (database : DatabaseReader) (constraints : List Constraint)
    (checked : List PageNumber)
    (table : TableDefinition) : Except WriteError (List PageNumber) :=
  if table.root ∈ checked then .ok checked
  else do
    checkTarget table constraints
    incoming database table.root constraints
    return checked ++ [table.root]

/-- The relationships that are connected with a table, with all of their endpoints checked. -/
def component (database : DatabaseReader) (records : List Record) (target : TableDefinition)
    (name : List UInt8) : Except WriteError (List Constraint) := do
  let scan ← closure database (groups records)
    { names := [name], constraints := [], advanced := false }
  checkTarget target scan.constraints
  incoming database target.root scan.constraints
  let _ ← (scan.constraints.flatMap fun constraint => [constraint.parent, constraint.child]).foldlM
    (checkTable database scan.constraints) [target.root]
  return scan.constraints

/-! ## The scan -/

/-- A group is touched through its first record. -/
def groupTouched (name : List UInt8) (group : List Record) : Prop :=
  ∃ first, group.head? = some first ∧ first.touchedBy name = true

/-- The tables an enforced group adds. -/
def groupGives (group : List Record) : List (List UInt8) :=
  if enforced group then group.head?.toList.flatMap fun first => [first.parent, first.child] else []

/-- A relationship that is reached from a table through enforced ones. -/
def Reached (records : List Record) (name : List UInt8) (group : List Record) : Prop :=
  Reach.Reached groupTouched groupGives (groups records) name group

/-- The components of a group in order, where they can be ordered. -/
def orderedOf (group : List Record) : List Record :=
  match ordered group with
  | .ok records => records
  | .error _ => []

/-- A group whose attributes are interpreted, whose components are complete, and whose names are
valid. -/
structure Accepted (group : List Record) : Prop where
  interpreted : ∃ first, group.head? = some first ∧ first.interpreted.isSome
  orders : ordered group = .ok (orderedOf group)
  names : ∀ record ∈ orderedOf group, checkNames record = .ok ()

/-- What the scan has done: it took reached and accepted groups, knows the tables of the enforced
ones, and resolved these. -/
structure Progress (database : DatabaseReader) (records : List Record) (name : List UInt8)
    (pending taken : List (List Record)) (scan : Scan) : Prop where
  perm : (taken ++ pending).Perm (groups records)
  start : name ∈ scan.names
  known : ∀ n ∈ scan.names, Reach.Known groupTouched groupGives (groups records) name n
  reached : ∀ group ∈ taken, Reached records name group
  accepted : ∀ group ∈ taken, Accepted group
  gives : ∀ group ∈ taken, ∀ n ∈ groupGives group, n ∈ scan.names
  resolved : ((taken.filter enforced).map orderedOf).mapM (resolve database) = .ok scan.constraints

/-- The attributes of the first record are those of all. -/
theorem enforced_of_ordered {group records : List Record} (h : ordered group = .ok records) :
    enforced records = enforced group := by
  obtain ⟨⟨first, hfirst, -, hsame⟩, hperm, -⟩ := ordered_ok_iff.mp h
  rcases records with _ | ⟨record, rest⟩
  · rw [hperm.symm.eq_nil]
  · have hmem : record ∈ group := hperm.mem_iff.mp List.mem_cons_self
    have hattributes : record.attributes = first.attributes := by
      have := hsame record hmem
      rw [Record.sameRelationship, decide_eq_true_eq] at this
      exact this.1
    rw [enforced, enforced, hfirst, List.head?_cons, Option.any_some, Option.any_some, hattributes]

/-- The components of a group, in order. -/
theorem orderedOf_eq {group records : List Record} (h : ordered group = .ok records) :
    orderedOf group = records := by
  rw [orderedOf, h]

/-- An enforced group makes the names of both tables known. -/
theorem groupGives_of_enforced {group : List Record} {first : Record}
    (hfirst : group.head? = some first)
    (h : enforced group = true) : groupGives group = [first.parent, first.child] := by
  rw [groupGives, if_pos h, hfirst]
  rfl

/-- Other groups make no name known. -/
theorem groupGives_of_unenforced {group : List Record} (h : enforced group = false) :
    groupGives group = [] := by
  rw [groupGives, if_neg (by rw [h]; decide)]

section Progress

variable {database : DatabaseReader} {records : List Record} {name : List UInt8}
  {skipped pending taken left : List (List Record)} {group : List Record} {scan scan' : Scan}

/-- A group that is touched by a known name is reached. -/
theorem Progress.reached_of_touched (h : Progress database records name pending taken scan)
    (hgroup : group ∈ pending) {n : List UInt8} (hn : n ∈ scan.names)
    (htouched : groupTouched n group) :
    Reached records name group :=
  ⟨h.perm.mem_iff.mp (List.mem_append_right _ hgroup), n, h.known n hn, htouched⟩

/-- A group that is selected joins the taken ones. -/
theorem Progress.visit (h : Progress database records name (skipped ++ group :: pending) taken scan)
    (hvisit : visit database scan group = .ok (some scan')) :
    Progress database records name (skipped ++ pending) (taken ++ [group]) scan' := by
  obtain ⟨first, components, hfirst, ⟨n, hn, htouched⟩, hinterpreted, hordered, hnames, hcase⟩ :=
    visit_some hvisit
  have hreached : Reached records name group :=
    h.reached_of_touched (List.mem_append_right _ List.mem_cons_self) hn ⟨first, hfirst, htouched⟩
  have hcomponents := orderedOf_eq hordered
  have haccepted : Accepted group :=
    ⟨⟨first, hfirst, hinterpreted⟩, hordered.trans (congrArg _ hcomponents.symm),
      hcomponents ▸ hnames⟩
  -- the group goes over to those that were taken
  have hperm : (taken ++ [group] ++ (skipped ++ pending)).Perm (groups records) := by
    refine List.Perm.trans ?_ h.perm
    rw [List.append_assoc, List.singleton_append]
    exact List.perm_middle.symm.append_left taken
  have htaken : ∀ {p : List Record → Prop}, (∀ other ∈ taken, p other) → p group →
      ∀ other ∈ taken ++ [group], p other := by
    intro p hold hnew other hother
    rcases List.mem_append.mp hother with hother | hother
    · exact hold other hother
    · rwa [List.mem_singleton.mp hother]
  rcases hcase with ⟨henforced, rfl⟩ | ⟨henforced, constraint, hconstraint, rfl⟩
  · -- a group without enforcement adds no names and no constraint
    rw [enforced_of_ordered hordered] at henforced
    refine ⟨hperm, h.start, h.known, htaken h.reached hreached, htaken h.accepted haccepted,
      htaken h.gives ?_, ?_⟩
    · rw [groupGives_of_unenforced henforced]
      simp
    · rw [List.filter_append, List.filter_singleton, henforced]
      simpa using h.resolved
  · -- an enforced one adds its two names and its constraint
    rw [enforced_of_ordered hordered] at henforced
    have hgives := groupGives_of_enforced hfirst henforced
    refine ⟨hperm, List.mem_append_left _ h.start, fun m hm => ?_, htaken h.reached hreached,
      htaken h.accepted haccepted, htaken (fun other hother m hm => ?_) ?_, ?_⟩
    · rcases List.mem_append.mp hm with hm | hm
      · exact h.known m hm
      · exact hreached.known (hgives ▸ hm)
    · exact List.mem_append_left _ (h.gives other hother m hm)
    · rw [hgives]
      exact fun m hm => List.mem_append_right _ hm
    · rw [List.filter_append, List.filter_singleton, henforced, List.map_append, List.mapM_append,
        h.resolved]
      show List.mapM (resolve database) [orderedOf group] >>= _ = _
      rw [hcomponents, List.mapM_cons, hconstraint]
      rfl

/-- A pass keeps the invariant; where it does not advance, no known name touches a group it
leaves. -/
theorem Progress.pass (h : Progress database records name (skipped ++ pending) taken scan)
    (hpass : pass database pending scan = .ok (left, scan')) :
    (∃ taken', Progress database records name (skipped ++ left) taken' scan') ∧
      (scan'.advanced = false → scan.advanced = false ∧ scan'.names = scan.names ∧
        ∀ group ∈ left, ∀ n ∈ scan.names, ¬groupTouched n group) := by
  induction pending generalizing skipped taken left scan with
  | nil =>
    cases hpass
    exact ⟨⟨taken, h⟩, fun hadvanced => ⟨hadvanced, rfl, by simp⟩⟩
  | cons group rest ih =>
    rcases pass_cons_ok hpass with ⟨left', hvisit, hrest, rfl⟩ | ⟨next, hvisit, hrest⟩
    · obtain ⟨first, hfirst, huntouched⟩ := visit_none hvisit
      have hsplit : skipped ++ group :: rest = (skipped ++ [group]) ++ rest := by simp
      rw [hsplit] at h
      obtain ⟨⟨taken', hprogress⟩, hidle⟩ := ih h hrest
      refine ⟨⟨taken', by simpa using hprogress⟩, fun hadvanced => ?_⟩
      obtain ⟨hbefore, hnames, hleft⟩ := hidle hadvanced
      refine ⟨hbefore, hnames, fun other hother n hn => ?_⟩
      rcases List.mem_cons.mp hother with rfl | hother
      · rintro ⟨found, hfound, htouched⟩
        rw [hfirst] at hfound
        exact huntouched n hn (Option.some.inj hfound ▸ htouched)
      · exact hleft other hother n hn
    · obtain ⟨⟨taken', hprogress⟩, hidle⟩ := ih (h.visit hvisit) hrest
      refine ⟨⟨taken', hprogress⟩, fun hadvanced => ?_⟩
      obtain ⟨hbefore, hnames, hleft⟩ := hidle hadvanced
      obtain ⟨first, components, -, -, -, -, -, hcase⟩ := visit_some hvisit
      -- an enforced group would have advanced the scan
      rcases hcase with ⟨-, rfl⟩ | ⟨-, constraint, -, rfl⟩
      · exact ⟨hbefore, hnames, hleft⟩
      · cases hbefore

/-- The scans end with the reached groups taken. -/
theorem Progress.closure (h : Progress database records name pending taken scan)
    (hclosure : closure database pending scan = .ok scan') :
    ∃ left taken', Progress database records name left taken' scan' ∧
      ∀ group ∈ left, ∀ n ∈ scan'.names, ¬groupTouched n group := by
  induction hlength : pending.length using Nat.strongRecOn generalizing pending taken scan with
  | ind k ih =>
    unfold RelationshipCatalog.closure at hclosure
    split at hclosure
    · cases hclosure
    · rename_i left next hpass
      have hstart : Progress database records name ([] ++ pending) taken
        { scan with advanced := false } :=
        ⟨h.perm, h.start, h.known, h.reached, h.accepted, h.gives, h.resolved⟩
      obtain ⟨⟨taken', hprogress⟩, hidle⟩ := hstart.pass hpass
      split at hclosure
      · rename_i hadvanced
        -- a pass that advanced has taken a group, so fewer are left
        have hlt := ((pass_length hpass).2 hadvanced).resolve_left (by simp)
        exact ih left.length (hlength ▸ hlt) hprogress hclosure rfl
      · rename_i hadvanced
        cases hclosure
        -- a pass that did not has found no touched group
        obtain ⟨-, hnames, hleft⟩ := hidle (Bool.not_eq_true _ ▸ hadvanced)
        exact ⟨left, taken', hprogress, by rw [hnames]; exact hleft⟩

end Progress

end Jet3.RelationshipCatalog
