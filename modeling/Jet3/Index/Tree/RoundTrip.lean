import Jet3.Index.Tree.PlannedImage
import Jet3.Index.Tree.ReadImage

/-!
# Index trees read back

A planned tree that is stored is read back: every entry, in the order in which it was planned.

* `Stored` says that the nodes of a plan are on pages of a file;
* `visitNode_stored` is one node, `visitLevel` the nodes of a level and `run_levels` the levels from
  one down to the leaves;
* `indexTree_stored` reads a stored plan, and `indexTree_planned` is the round trip of entries.
-/

namespace Jet3

open Outcome ScalarIndexPages RowReferenceValidator

/-- The nodes of a plan are on pages of a file, each on its own, and the rows that are indexed are
there. -/
structure Stored (plan : ScalarIndexPages) (entries : List ScalarIndexEntry)
    (pageFor : ℕ → Option PageNumber) (file : PageFile) (table : TableDefinition) : Prop where
  written : ∀ ordinal < plan.nodes.length, ∃ original page,
    plan.image ordinal (entries.map ScalarIndexEntry.record) pageFor table.root original =
      .ok page ∧
      file[pageRef pageFor ordinal]? = some page
  distinct : ∀ i < plan.nodes.length, ∀ j < plan.nodes.length,
    pageRef pageFor i = pageRef pageFor j → i = j
  nonzero : ∀ ordinal < plan.nodes.length, pageRef pageFor ordinal ≠ 0
  rows : ∀ entry ∈ entries, Listed file table.root entry.locator ∧
    @LT.lt ℕ _ entry.locator.page (2 ^ 24)

/-! ## One node -/

section Nodes

variable {plan : ScalarIndexPages} {entries : List ScalarIndexEntry}
  {pageFor : ℕ → Option PageNumber}
  {file : PageFile} {table : TableDefinition} {physical : PhysicalIndexDefinition} {start : ℕ}

/-- The queue item of a node at a depth. -/
def pendingAt (pageFor : ℕ → Option PageNumber) (depth ordinal : ℕ) : PendingNode :=
  { page := pageRef pageFor ordinal, depth }

/-- The node that is read from the page of a planned node. -/
def indexNodeAt (plan : ScalarIndexPages) (pageFor : ℕ → Option PageNumber) (depth ordinal : ℕ) :
    IndexNode :=
  let node := nodeAt plan.nodes ordinal
  { page := pageRef pageFor ordinal, kind := node.kind, depth
    previous := (node.previous ordinal).map (pageRef pageFor)
    next := (node.next ordinal).map (pageRef pageFor) }

/-- The entries that are read from a page, and the nodes its node refers to. -/
def entriesAt (plan : ScalarIndexPages) (physical : PhysicalIndexDefinition)
    (table : TableDefinition)
    (entries : List ScalarIndexEntry) (ordinal : ℕ) : List IndexEntry :=
  let node := nodeAt plan.nodes ordinal
  if node.children.isEmpty then
    ((entries.drop node.entries.start).take node.entries.len).map fun entry =>
      readEntry physical table entry.key entry.locator
  else []

/-- The children of a planned node. -/
def childrenAt (plan : ScalarIndexPages) (ordinal : ℕ) : List ℕ :=
  let node := nodeAt plan.nodes ordinal
  List.range' node.children.start (node.children.stop - node.children.start)

/-- A record that fits has a key. -/
theorem key_ne_nil {entry : ScalarIndexEntry} (h : RecordFits entry.record) : entry.key ≠ [] := by
  intro hempty
  have hlength := h.1
  rw [ScalarIndexEntry.record, hempty, List.nil_append, length_locatorBytes] at hlength
  omega

theorem lt_pageCount {page : PageNumber} {raw : Page} (h : file[page]? = some raw) :
    page < file.pageCount :=
  (List.getElem?_eq_some_iff.mp h).1

namespace Stored

/-- The page of a node, and what is on it. -/
theorem image_eq (h : Stored plan entries pageFor file table) {ordinal : ℕ}
    (hlt : ordinal < plan.nodes.length) :
    ∃ page, file[pageRef pageFor ordinal]? = some page ∧ pageRef pageFor ordinal < 2 ^ 32 ∧
      NodeImage page table.root (nodeAt plan.nodes ordinal).kind
        ((indexNodeAt plan pageFor 0 ordinal).previous) ((indexNodeAt plan pageFor 0 ordinal).next)
        ((nodeAt plan.nodes ordinal).tail pageFor)
        (plan.entriesOf (entries.map ScalarIndexEntry.record) pageFor (nodeAt plan.nodes ordinal)
          (List.range (nodeAt plan.nodes ordinal).entryCount)) := by
  obtain ⟨original, page, himage, hpage⟩ := h.written ordinal hlt
  obtain ⟨node, hnode, hon, -⟩ := image_ok himage
  have hnodeAt : nodeAt plan.nodes ordinal = node := by
    rw [nodeAt, List.getD_eq_getElem?_getD, hnode, Option.getD_some]
  have hwidth : pageRef pageFor ordinal < 2 ^ 32 := by
    simp only [image, bind_ok_iff, exists_unit, pageOf_ok_iff] at himage
    obtain ⟨-, -, -, -, page, ⟨hnumber, hsmall⟩, -⟩ := himage
    rw [pageRef, hnumber, Option.getD_some]
    exact hsmall
  refine ⟨page, hpage, hwidth, ?_⟩
  simp only [indexNodeAt, hnodeAt]
  exact hon

/-- The page of another node may stand in a link. -/
theorem linkFits (h : Stored plan entries pageFor file table) {ordinal : ℕ} {target : Option ℕ}
    (hlt : ordinal < plan.nodes.length)
    (htarget : ∀ other, target = some other → other < plan.nodes.length ∧ other ≠ ordinal) :
    LinkFits file.pageCount (pageRef pageFor ordinal) (target.map (pageRef pageFor)) := by
  intro page hpage
  obtain ⟨other, hother, rfl⟩ := Option.map_eq_some_iff.mp hpage
  obtain ⟨hinside, hne⟩ := htarget other hother
  obtain ⟨raw, hraw, -⟩ := h.image_eq hinside
  exact ⟨h.nonzero other hinside, fun heq => hne (h.distinct other hinside ordinal hlt heq),
    lt_pageCount hraw⟩

end Stored

/-- Rows that are there are accepted. -/
theorem exists_validate_rows {rows : RowReferenceValidator} {read : List IndexEntry}
    (hkept : Kept file table.root rows) (hrows : ∀ entry ∈ read, Listed file table.root entry.row) :
    ∃ rows', read.foldlM (fun rows entry => rows.validate file table.root entry.row) rows =
      .ok rows' ∧
      Kept file table.root rows' := by
  refine exists_foldlM_ok (fun _ rows => Kept file table.root rows) hkept ?_
  intro done entry rest rows hsplit hkept
  obtain ⟨rows', hrows'⟩ := (validate_ok_iff hkept).mpr (hrows entry (by rw [hsplit]; simp))
  exact ⟨rows', hrows', hkept.validate_ok hrows'⟩

/-- The contents of a leaf are its entries. -/
theorem nodeContents_leaf {page : Page} {parsed : ParsedNode} {rows rows' : RowReferenceValidator}
    {read : List IndexEntry} (hkind : parsed.node.kind = .leaf)
    (hread : leafEntries page parsed physical table file.pageCount = .ok read)
    (hrows : read.foldlM (fun rows entry => rows.validate file table.root entry.row) rows =
      .ok rows') :
    nodeContents file table physical page parsed rows = .ok ((read, rows'), []) := by
  unfold nodeContents
  rw [hkind]
  simp only [bind_ok_iff, pure_ok_iff]
  exact ⟨read, hread, rows', hrows, rfl⟩

/-- The contents of a branch are its children. -/
theorem nodeContents_branch {page : Page} {parsed : ParsedNode} {rows : RowReferenceValidator}
    {children : List PendingNode} (hkind : parsed.node.kind = .intermediate)
    (hread : childNodes page parsed file.pageCount = .ok children) :
    nodeContents file table physical page parsed rows = .ok (([], rows), children) := by
  unfold nodeContents
  rw [hkind]
  simp only [bind_ok_iff, pure_ok_iff]
  exact ⟨children, hread, rfl⟩

/-- The separators and the children of a planned branch. -/
theorem exists_children (pageFor : ℕ → Option PageNumber) {node : Node}
    (hlevels : Levels (entries.map ScalarIndexEntry.record) plan.nodes start)
    (pair : node.children.start + 2 ≤ node.children.stop)
    (stop : node.children.stop ≤ plan.nodes.length) :
    ∃ separators : List (ScalarIndexEntry × PageNumber),
      plan.entriesOf (entries.map ScalarIndexEntry.record) pageFor node
        (List.range node.entryCount) =
        (separators.map fun entry => entry.1.record ++ beBytes branchChildLen entry.2) ∧
      (∀ entry ∈ separators, entry.1 ∈ entries) ∧
      separators.map Prod.snd =
        (List.range' node.children.start (node.children.stop - 1 - node.children.start)).map
          (pageRef pageFor) := by
  have hne := hlevels.records_ne_nil (by omega)
  have hsource : ∀ child, child < plan.nodes.length → ∃ entry ∈ entries,
      entry.record = maximumRecord (entries.map ScalarIndexEntry.record) plan.nodes child :=
    fun child hchild => List.mem_map.mp (hlevels.maximumRecord_mem hchild hne)
  have hsome : Nonempty ScalarIndexEntry := by
    obtain ⟨entry, -⟩ := List.exists_mem_of_ne_nil entries (fun hnil => hne (by rw [hnil]; rfl))
    exact ⟨entry⟩
  choose! separator hmem hrecord using hsource
  have hinside : ∀ child ∈ List.range' node.children.start
      (node.children.stop - 1 - node.children.start), child < plan.nodes.length := by
    intro child hchild
    have hrange := List.mem_range'_1.mp hchild
    omega
  refine ⟨(List.range' node.children.start (node.children.stop - 1 - node.children.start)).map
    fun child => (separator child, pageRef pageFor child), ?_, ?_, ?_⟩
  · rw [branch_entriesOf pair, List.map_map]
    refine List.map_congr_left fun child hchild => ?_
    rw [Function.comp_apply, hrecord child (hinside child hchild)]
  · exact List.forall_mem_map.mpr fun child hchild => hmem child (hinside child hchild)
  · rw [List.map_map]
    rfl

namespace Stored

/-- What is read from the page of a planned node. -/
theorem nodeContents (h : Stored plan entries pageFor file table)
    (physical : PhysicalIndexDefinition)
    (hlevels : Levels (entries.map ScalarIndexEntry.record) plan.nodes start) (depth : ℕ)
    {ordinal : ℕ}
    (hlt : ordinal < plan.nodes.length) {page : Page} {previous next : Option PageNumber}
    (hon : NodeImage page table.root (nodeAt plan.nodes ordinal).kind previous next
      ((nodeAt plan.nodes ordinal).tail pageFor)
      (plan.entriesOf (entries.map ScalarIndexEntry.record) pageFor (nodeAt plan.nodes ordinal)
        (List.range (nodeAt plan.nodes ordinal).entryCount)))
    {rows : RowReferenceValidator} (hkept : Kept file table.root rows) :
    ∃ rows', Kept file table.root rows' ∧
      Jet3.nodeContents file table physical page
        (NodeImage.parsedNode (pendingAt pageFor depth ordinal) (nodeAt plan.nodes ordinal).kind
          previous next ((nodeAt plan.nodes ordinal).tail pageFor)) rows =
        .ok ((entriesAt plan physical table entries ordinal, rows'),
          (childrenAt plan ordinal).map (pendingAt pageFor (depth + 1))) := by
  have hplanned := (hlevels.planned hlt).1
  have hkeys : ∀ entry ∈ entries, entry.key ≠ [] ∧ @LT.lt ℕ _ entry.locator.page (2 ^ 24) ∧
      entry.locator.page < file.pageCount := by
    intro entry hentry
    obtain ⟨⟨raw, hraw, -⟩, hsmall⟩ := h.rows entry hentry
    exact ⟨key_ne_nil (hlevels.fits _ (List.mem_map_of_mem hentry)), hsmall, lt_pageCount hraw⟩
  simp only [entriesAt, childrenAt]
  generalize nodeAt plan.nodes ordinal = node at hplanned hon ⊢
  rcases hplanned with ⟨children, stop, -⟩ | ⟨pair, stop, -⟩
  · have hempty := children_isEmpty children
    have hkind : node.kind = .leaf := by rw [Node.kind, if_pos hempty]
    rw [leaf_entriesOf children stop, hkind, recordsIn, ← List.map_drop, ← List.map_take] at hon
    have hread : leafEntries page
        (NodeImage.parsedNode (pendingAt pageFor depth ordinal) .leaf previous next
          (node.tail pageFor))
        physical table file.pageCount = .ok _ := hon.leafEntries
      (fun entry hentry => hkeys entry (List.mem_of_mem_drop (List.mem_of_mem_take hentry)))
    obtain ⟨rows', hrows, hkept'⟩ := @exists_validate_rows file table rows
      (((entries.drop node.entries.start).take node.entries.len).map fun entry =>
        readEntry physical table entry.key entry.locator) hkept (by
        refine List.forall_mem_map.mpr fun entry hentry => ?_
        exact (h.rows entry (List.mem_of_mem_drop (List.mem_of_mem_take hentry))).1)
    refine ⟨rows', hkept', ?_⟩
    rw [hkind, if_pos hempty, children]
    exact nodeContents_leaf rfl hread hrows
  · have hempty := children_not_isEmpty pair
    have hkind : node.kind = .intermediate := by
      rw [Node.kind, hempty]
      rfl
    have htail : node.tail pageFor = pageRef pageFor (node.children.stop - 1) := by
      rw [Node.tail, hempty]
      rfl
    obtain ⟨separators, hentries, hmem, hpages⟩ :=
      exists_children pageFor hlevels pair (stop.trans hlt.le)
    rw [hentries, hkind, htail] at hon
    -- the pages of the separators, and the one behind them
    have hchildren : separators.map Prod.snd ++ [pageRef pageFor (node.children.stop - 1)] =
        (List.range' node.children.start (node.children.stop - node.children.start)).map
          (pageRef pageFor) := by
      rw [hpages, show node.children.stop - node.children.start =
        node.children.stop - 1 - node.children.start +
          1 by omega, List.range'_1_concat, List.map_append,
        List.map_singleton, show node.children.start +
          (node.children.stop - 1 - node.children.start) =
          node.children.stop - 1 by omega]
    have hread : childNodes page
      (NodeImage.parsedNode (pendingAt pageFor depth ordinal) .intermediate
        previous next (pageRef pageFor (node.children.stop - 1))) file.pageCount =
          .ok _ := hon.childNodes
      (fun entry hentry => hkeys entry.1 (hmem entry hentry)) (by
        rw [hchildren]
        refine List.forall_mem_map.mpr fun child hchild => ?_
        have hrange := List.mem_range'_1.mp hchild
        obtain ⟨raw, hraw, hsmall, -⟩ := h.image_eq (show child < plan.nodes.length by omega)
        refine ⟨hsmall, fun heq => ?_, lt_pageCount hraw⟩
        have hsame := h.distinct child (by omega) ordinal hlt heq
        omega)
    refine ⟨rows, hkept, ?_⟩
    rw [hkind, hempty, htail]
    rw [hchildren, List.map_map] at hread
    exact nodeContents_branch rfl hread

/-- A planned node is read. -/
theorem visitNode (h : Stored plan entries pageFor file table) (physical : PhysicalIndexDefinition)
    (hlevels : Levels (entries.map ScalarIndexEntry.record) plan.nodes start) {state : TreeState}
    {ordinal depth : ℕ} {leafDepth : Option ℕ} (hlt : ordinal < plan.nodes.length)
    (hnew : pageRef pageFor ordinal ∉ state.visited) (hkept : Kept file table.root state.rows)
    (hdepth : checkLeafDepth state.leafDepth (pendingAt pageFor depth ordinal)
      (nodeAt plan.nodes ordinal).kind = .ok leafDepth) :
    ∃ rows, Kept file table.root rows ∧
      Jet3.visitNode file table physical state (pendingAt pageFor depth ordinal) =
        .ok ({ visited := pageRef pageFor ordinal :: state.visited
               nodes := state.nodes ++ [indexNodeAt plan pageFor depth ordinal]
               entries := state.entries ++ entriesAt plan physical table entries ordinal
               rows, leafDepth },
          (childrenAt plan ordinal).map (pendingAt pageFor (depth + 1))) := by
  obtain ⟨page, hpage, -, hon⟩ := h.image_eq hlt
  obtain ⟨hplanned, hsiblings⟩ := hlevels.planned hlt
  obtain ⟨rows, hrows, hcontents⟩ := h.nodeContents physical hlevels depth hlt hon hkept
  -- both links are to other nodes of the plan
  have hprevious : LinkFits file.pageCount (pageRef pageFor ordinal)
      (indexNodeAt plan pageFor depth ordinal).previous := by
    refine h.linkFits hlt fun other hother => ?_
    rw [Node.previous, Option.ite_none_right_eq_some] at hother
    obtain ⟨hfirst, hother⟩ := hother
    cases hother
    omega
  have hnext : LinkFits file.pageCount (pageRef pageFor ordinal)
      (indexNodeAt plan pageFor depth ordinal).next := by
    refine h.linkFits hlt fun other hother => ?_
    rw [Node.next, Option.ite_none_right_eq_some] at hother
    obtain ⟨hlast, hother⟩ := hother
    cases hother
    omega
  have hbytes : ∀ entry ∈ plan.entriesOf (entries.map ScalarIndexEntry.record) pageFor
      (nodeAt plan.nodes ordinal) (List.range (nodeAt plan.nodes ordinal).entryCount), entry ≠
        [] := by
    refine List.forall_mem_map.mpr fun position hposition => ?_
    have hmem := sourceRecord_mem hlevels hlt hplanned (List.mem_range.mp hposition)
    refine List.append_ne_nil_of_left_ne_nil (fun hnil => ?_) _
    have hlength := (hlevels.fits _ hmem).1
    rw [hnil, List.length_nil] at hlength
    omega
  -- the page is parsed as the node, since a branch has a tail and entries
  have hparsed : parseNode (classifyPage (pageRef pageFor ordinal) page)
      (pendingAt pageFor depth ordinal) table.root file.pageCount page = .ok _ := hon.parseNode
    (h.nonzero ordinal hlt) hprevious hnext (by
      rcases hplanned with ⟨children, -, -⟩ | ⟨pair, stop, -⟩
      · have hempty := children_isEmpty children
        rw [Node.kind, Node.tail, if_pos hempty, if_pos hempty]
        rfl
      · have hempty := children_not_isEmpty pair
        have htail := h.nonzero ((nodeAt plan.nodes ordinal).children.stop - 1) (by omega)
        rw [Node.kind, Node.tail, hempty]
        exact decide_eq_true htail) hbytes (by
      intro hkind hnil
      rcases hplanned with ⟨children, -, -⟩ | ⟨pair, -, -⟩
      · rw [Node.kind, if_pos (children_isEmpty children)] at hkind
        cases hkind
      · have hcount := congrArg List.length hnil
        rw [branch_entriesOf pair, List.length_map, List.length_range', List.length_nil] at hcount
        omega)
  refine ⟨rows, hrows, ?_⟩
  simp only [Jet3.visitNode, bind_ok_iff, exists_unit, refuseIf_ok_iff, mapError_ok_iff,
    Prod.exists, PageFile.readClassifiedPage_ok_iff, validateIndexReference, validateReference,
    not_not, pure_ok_iff]
  exact ⟨lt_pageCount hpage, hnew, _, ⟨page, hpage, rfl⟩, _, hparsed, leafDepth, hdepth, _, rows, _,
    hcontents, rfl⟩

end Stored

/-! ## Levels -/

/-- Levels of nodes, one depth below the other, with links between the nodes of each. -/
inductive LevelsAt : ℕ → List (List IndexNode) → Prop
  | nil (depth : ℕ) : LevelsAt depth []
  | cons {depth : ℕ} {level : List IndexNode} {levels : List (List IndexNode)} (ne_nil : level ≠ [])
      (depth_eq : ∀ node ∈ level, node.depth = depth) (linked : Linked level)
      (rest : LevelsAt (depth + 1) levels) : LevelsAt depth (level :: levels)

/-- The nodes of a level are linked as they stand. -/
theorem linked_indexNodeAt {first count depth : ℕ} (hsiblings : ∀ ordinal, first ≤ ordinal →
      ordinal < first + count → (nodeAt plan.nodes ordinal).siblings = ⟨first, first + count⟩) :
    Linked ((List.range' first count).map (indexNodeAt plan pageFor depth)) := by
  have hget : ∀ i, ((List.range' first count).map (indexNodeAt plan pageFor depth))[i]? =
      if i < count then some (indexNodeAt plan pageFor depth (first + i)) else none := by
    intro i
    rw [List.getElem?_map]
    split
    next hi => rw [List.getElem?_range' hi, Nat.one_mul, Option.map_some]
    next hi => rw [List.getElem?_eq_none (by rw [List.length_range']; omega), Option.map_none]
  intro i node hnode
  rw [hget, Option.ite_none_right_eq_some] at hnode
  obtain ⟨hi, hnode⟩ := hnode
  cases hnode
  rw [hget, hget]
  simp only [indexNodeAt, Node.previous, Node.next,
    hsiblings (first + i) (Nat.le_add_right _ _) (by omega)]
  refine ⟨?_, ?_⟩
  · rcases Nat.eq_zero_or_pos i with rfl | hpos
    · rw [if_neg (by omega), if_pos rfl, Option.map_none]
    · rw [if_pos (by omega), if_neg (by omega), if_pos (by omega), Option.map_some, Option.map_some,
        Nat.add_sub_assoc hpos]
  · split
    next hnext => rw [if_pos (by omega), Option.map_some, Option.map_some, Nat.add_assoc]
    next hlast => rw [if_neg (by omega), Option.map_none, Option.map_none]

/-- The levels are the groups that the links are checked in. -/
theorem LevelsAt.levelsOf {depth : ℕ} {levels : List (List IndexNode)} (h : LevelsAt depth levels) :
    Jet3.levelsOf levels.flatten = levels := by
  -- neighbours of a level have one depth, and the next level has another
  refine List.splitBy_flatten ?_ ?_ ?_
  · induction h with
    | nil => exact List.not_mem_nil
    | cons ne_nil _ _ _ ih => exact fun hmem =>
      (List.mem_cons.mp hmem).elim (fun h => ne_nil h.symm) ih
  · induction h with
    | nil => simp
    | cons _ depth_eq _ _ ih =>
      refine List.forall_mem_cons.mpr ⟨?_, ih⟩
      refine (List.pairwise_of_forall_mem_list fun a ha b hb => ?_).isChain
      rw [depth_eq a ha, depth_eq b hb]
      exact decide_eq_true rfl
  · induction h with
    | nil => exact .nil
    | @cons depth level levels ne_nil depth_eq linked rest ih =>
      cases rest with
      | nil => exact .singleton _
      | cons ne_nil' depth_eq' linked' rest' =>
        refine .cons_cons ⟨ne_nil, ne_nil', decide_eq_false ?_⟩ ih
        rw [depth_eq _ (List.getLast_mem _), depth_eq' _ (List.head_mem _)]
        omega

/-- The levels of a plan are linked. -/
theorem LevelsAt.linked {depth : ℕ} {levels : List (List IndexNode)} (h : LevelsAt depth levels) :
    ∀ level ∈ levels, Linked level := by
  induction h with
  | nil => exact fun _ hmem => absurd hmem List.not_mem_nil
  | cons _ _ linked _ ih => exact List.forall_mem_cons.mpr ⟨linked, ih⟩

/-- The state behind the nodes of a level. -/
structure LevelState (plan : ScalarIndexPages) (entries : List ScalarIndexEntry)
    (pageFor : ℕ → Option PageNumber) (file : PageFile) (table : TableDefinition)
    (physical : PhysicalIndexDefinition) (kind : IndexNodeKind) (depth : ℕ) (before : TreeState)
    (ordinals : List ℕ) (state : TreeState) : Prop where
  visited_eq : state.visited = (ordinals.map (pageRef pageFor)).reverse ++ before.visited
  nodes_eq : state.nodes = before.nodes ++ ordinals.map (indexNodeAt plan pageFor depth)
  entries_eq : state.entries =
    before.entries ++ ordinals.flatMap (entriesAt plan physical table entries)
  kept : Kept file table.root state.rows
  leafDepth_eq : state.leafDepth = none ∨ kind = .leaf ∧ state.leafDepth = some depth

/-- The nodes of a level are read, and leave those of the level below. -/
theorem Stored.run_level (h : Stored plan entries pageFor file table)
    (physical : PhysicalIndexDefinition)
    (hlevels : Levels (entries.map ScalarIndexEntry.record) plan.nodes start) {before : TreeState}
    {kind : IndexNodeKind} (depth : ℕ) {first count : ℕ} (hlt : first + count ≤ plan.nodes.length)
    (hkind : ∀ ordinal, first ≤ ordinal → ordinal < first + count →
      (nodeAt plan.nodes ordinal).kind = kind)
    (hnew : ∀ ordinal, first ≤ ordinal → ordinal < first + count →
      pageRef pageFor ordinal ∉ before.visited)
    (hkept : Kept file table.root before.rows) (hdepth : before.leafDepth = none) :
    ∃ state, LevelState plan entries pageFor file table physical kind depth before
        (List.range' first count) state ∧ ∀ fuel queue,
      Worklist.run (Jet3.visitNode file table physical) (count + fuel) before
          ((List.range' first count).map (pendingAt pageFor depth) ++ queue) =
        Worklist.run (Jet3.visitNode file table physical) fuel state (queue ++
          ((List.range' first count).flatMap (childrenAt plan)).map
            (pendingAt pageFor (depth + 1))) := by
  obtain ⟨state, hstate, hrun⟩ := @Worklist.run_level _ _ _ (Jet3.visitNode file table physical) _
    (List.range' first count) before (pendingAt pageFor depth)
    (fun ordinal => (childrenAt plan ordinal).map (pendingAt pageFor (depth + 1)))
    (LevelState plan entries pageFor file table physical kind depth before)
    ⟨rfl, by simp, by simp, hkept, .inl hdepth⟩ (by
      intro done ordinal rest state hsplit hstate
      have hmem : ∀ other ∈ done ++ [ordinal], first ≤ other ∧ other < first + count := by
        intro other hother
        refine List.mem_range'_1.mp ?_
        rw [hsplit, show done ++ ordinal :: rest = (done ++ [ordinal]) ++ rest by simp]
        exact List.mem_append_left rest hother
      obtain ⟨hge, hbound⟩ := hmem ordinal (by simp)
      have hinside : ordinal < plan.nodes.length := by omega
      have hnodup : ordinal ∉ done := by
        have hall : (List.range' first count).Nodup := List.nodup_range'
        rw [hsplit] at hall
        exact fun hin => List.disjoint_of_nodup_append hall hin List.mem_cons_self
      -- the page of the node is neither one of the level so far, nor one visited before it
      have hfresh : pageRef pageFor ordinal ∉ state.visited := by
        rw [hstate.visited_eq]
        intro hin
        rcases List.mem_append.mp hin with hlevel | hbefore
        · obtain ⟨other, hother, hsame⟩ := List.mem_map.mp (List.mem_reverse.mp hlevel)
          obtain ⟨-, hlow⟩ := hmem other (List.mem_append_left _ hother)
          rw [h.distinct other (by omega) ordinal hinside hsame] at hother
          exact hnodup hother
        · exact hnew ordinal hge hbound hbefore
      have hleaf : ∃ leafDepth, checkLeafDepth state.leafDepth (pendingAt pageFor depth ordinal)
          (nodeAt plan.nodes ordinal).kind = .ok leafDepth ∧
            (leafDepth = none ∨ kind = .leaf ∧ leafDepth = some depth) := by
        rw [hkind ordinal hge hbound]
        rcases hstate.leafDepth_eq with hnone | ⟨rfl, hsome⟩
        · rw [hnone]
          cases kind with
          | leaf => exact ⟨some depth, rfl, .inr ⟨rfl, rfl⟩⟩
          | intermediate => exact ⟨none, rfl, .inl rfl⟩
        · rw [hsome]
          exact ⟨some depth, by simp [checkLeafDepth, pendingAt], .inr ⟨rfl, rfl⟩⟩
      obtain ⟨leafDepth, hcheck, hleafDepth⟩ := hleaf
      obtain ⟨rows, hrows, hvisit⟩ := h.visitNode physical hlevels hinside hfresh
        hstate.kept hcheck
      refine ⟨_, hvisit, ?_, ?_, ?_, hrows, hleafDepth⟩
      · simp [hstate.visited_eq]
      · simp [hstate.nodes_eq]
      · simp [hstate.entries_eq])
  refine ⟨state, hstate, fun fuel queue => ?_⟩
  have hqueue := hrun fuel queue
  rw [List.length_range'] at hqueue
  rw [hqueue, List.map_flatMap]

/-- The nodes of a level, of which there are others before and behind. -/
theorem map_nodeAt_middle (below level above : List Node) :
    (List.range' below.length level.length).map (nodeAt (below ++ level ++ above)) = level := by
  refine Eq.trans (List.map_congr_left fun ordinal hordinal => ?_) (map_nodeAt below level)
  have hrange := List.mem_range'_1.mp hordinal
  exact nodeAt_append_left (by rw [List.length_append]; omega)

/-- The entries of the leaves are all entries. -/
theorem flatMap_entriesAt {leaves above : List Node} (hplan : plan.nodes = leaves ++ above)
    (hleaves : Leaves (entries.map ScalarIndexEntry.record) leaves) :
    (List.range' 0 leaves.length).flatMap (entriesAt plan physical table entries) =
      entries.map fun entry => readEntry physical table entry.key entry.locator := by
  have hlevel := map_nodeAt_middle [] leaves above
  rw [List.nil_append, ← hplan, List.length_nil] at hlevel
  have hslices := hleaves.tiles.flatMap_slice entries
  rw [List.length_map, Nat.sub_zero, List.drop_zero, List.take_length, List.flatMap_map] at hslices
  calc (List.range' 0 leaves.length).flatMap (entriesAt plan physical table entries)
      = ((List.range' 0 leaves.length).map (nodeAt plan.nodes)).flatMap fun node =>
          if node.children.isEmpty then
            ((entries.drop node.entries.start).take node.entries.len).map fun entry =>
              readEntry physical table entry.key entry.locator
          else [] := by
        rw [List.flatMap_map]
        rfl
    _ = (leaves.flatMap fun leaf => (entries.drop leaf.entries.start).take leaf.entries.len).map
          fun entry => readEntry physical table entry.key entry.locator := by
        rw [hlevel, List.map_flatMap]
        refine List.flatMap_congr fun leaf hleaf => ?_
        rw [if_pos (children_isEmpty (hleaves.leaf leaf hleaf))]
    _ = entries.map fun entry => readEntry physical table entry.key entry.locator := by
        exact congrArg (List.map _) hslices

/-- The children of the branches of a level are the nodes of the level below. -/
theorem flatMap_childrenAt {nodes branches above : List Node} {first : ℕ}
    (hplan : plan.nodes = nodes ++ branches ++ above)
    (hbranches : Branches (entries.map ScalarIndexEntry.record) nodes first nodes.length branches) :
    (List.range' nodes.length branches.length).flatMap (childrenAt plan) =
      List.range' first (nodes.length - first) := by
  have hlevel := map_nodeAt_middle nodes branches above
  rw [← hplan] at hlevel
  rw [← hbranches.tiles.flatMap_range', List.flatMap_map, ← hlevel, List.flatMap_map]
  simp only [List.length_map, List.length_range']
  rfl

/-- Branches have no entries of their own. -/
theorem flatMap_entriesAt_branches {nodes branches above : List Node} {first : ℕ}
    (hplan : plan.nodes = nodes ++ branches ++ above)
    (hbranches : Branches (entries.map ScalarIndexEntry.record) nodes first nodes.length branches) :
    (List.range' nodes.length branches.length).flatMap (entriesAt plan physical table entries) =
      [] := by
  have hlevel := map_nodeAt_middle nodes branches above
  rw [← hplan] at hlevel
  refine List.flatMap_eq_nil_iff.mpr fun ordinal hordinal => ?_
  have hmem : nodeAt plan.nodes ordinal ∈ branches := hlevel ▸ List.mem_map_of_mem hordinal
  rw [entriesAt, children_not_isEmpty (hbranches.pair _ hmem)]
  rfl

/-- A level and those below it are read down to the leaves. -/
theorem Stored.run_levels (h : Stored plan entries pageFor file table)
    (physical : PhysicalIndexDefinition) {top : ℕ}
    (htop : Levels (entries.map ScalarIndexEntry.record) plan.nodes top) {nodes above : List Node}
    (hlevels : Levels (entries.map ScalarIndexEntry.record) nodes start)
    (hplan : plan.nodes = nodes ++ above) (before : TreeState) (depth fuel : ℕ)
    (hnew : ∀ ordinal < nodes.length, pageRef pageFor ordinal ∉ before.visited)
    (hkept : Kept file table.root before.rows) (hdepth : before.leafDepth = none) :
    ∃ state levels, Worklist.run (Jet3.visitNode file table physical) (nodes.length + fuel) before
        ((List.range' start (nodes.length - start)).map (pendingAt pageFor depth)) =
          .ok (some state) ∧
      state.nodes = before.nodes ++ levels.flatten ∧ LevelsAt depth levels ∧
      state.entries = before.entries ++
        entries.map (fun entry => readEntry physical table entry.key entry.locator) ∧
      (levels.flatten.map IndexNode.page).Perm
        ((List.range nodes.length).map (pageRef pageFor)) := by
  induction hlevels generalizing above before depth fuel with
  | @leaves leaves hleaves hsiblings =>
    have hnode : ∀ ordinal < leaves.length, nodeAt plan.nodes ordinal ∈ leaves := by
      intro ordinal hlt
      rw [hplan, nodeAt_append_left hlt]
      exact @nodeAt_append_mem [] leaves ordinal (Nat.zero_le _) (by simpa using hlt)
    obtain ⟨state, hstate, hrun⟩ := @Stored.run_level _ _ _ _ _ _ h physical htop before .leaf
      depth 0 leaves.length (by rw [hplan, List.length_append]; omega) (fun ordinal _ hlt => by
        rw [Node.kind, if_pos (children_isEmpty (hleaves.leaf _ (hnode ordinal (by omega))))])
      (fun ordinal _ hlt => hnew ordinal (by omega)) hkept hdepth
    have hnone : (List.range' 0 leaves.length).flatMap (childrenAt plan) = [] := by
      refine List.flatMap_eq_nil_iff.mpr fun ordinal hordinal => ?_
      rw [childrenAt, hleaves.leaf _ (hnode ordinal (by simpa using hordinal))]
      rfl
    have hend := hrun fuel []
    rw [hnone, List.append_nil, List.map_nil, List.append_nil, Worklist.run_nil] at hend
    refine ⟨state, [(List.range' 0 leaves.length).map (indexNodeAt plan pageFor depth)], hend, ?_,
      ?_, ?_, ?_⟩
    · rw [hstate.nodes_eq, List.flatten_singleton]
    · refine .cons ?_ ?_ (linked_indexNodeAt fun ordinal _ hlt => ?_) (.nil _)
      · exact List.ne_nil_of_length_pos (by simpa using List.length_pos_of_ne_nil hleaves.ne_nil)
      · exact List.forall_mem_map.mpr fun ordinal _ => rfl
      · rw [hsiblings _ (hnode ordinal (by omega)), Nat.zero_add]
    · rw [hstate.entries_eq, flatMap_entriesAt hplan hleaves]
    · rw [List.flatten_singleton, List.map_map, List.range_eq_range']
      exact .refl _
  | @branches nodes branches start below wide hbranches hsiblings ih =>
    have hinside : nodes.length + branches.length ≤ plan.nodes.length := by
      rw [hplan, List.length_append, List.length_append]
      omega
    have hnode : ∀ ordinal, nodes.length ≤ ordinal → ordinal < nodes.length + branches.length →
        nodeAt plan.nodes ordinal ∈ branches := by
      intro ordinal hge hlt
      rw [hplan, nodeAt_append_left (by rw [List.length_append]; omega)]
      exact nodeAt_append_mem hge hlt
    obtain ⟨middle, hmiddle, hrun⟩ := @Stored.run_level _ _ _ _ _ _ h physical htop before
      .intermediate depth nodes.length branches.length hinside (fun ordinal hge hlt => by
        rw [Node.kind, children_not_isEmpty (hbranches.pair _ (hnode ordinal hge hlt))]
        rfl)
      (fun ordinal hge hlt => hnew ordinal (by rw [List.length_append]; exact hlt)) hkept hdepth
    -- what the branches leave is the level below
    have hqueue := hrun (nodes.length + fuel) []
    rw [List.append_nil, List.nil_append, flatMap_childrenAt hplan hbranches] at hqueue
    have hfresh : ∀ ordinal < nodes.length, pageRef pageFor ordinal ∉ middle.visited := by
      intro ordinal hlt
      rw [hmiddle.visited_eq]
      intro hin
      rcases List.mem_append.mp hin with hlevel | hbefore
      · obtain ⟨other, hother, hsame⟩ := List.mem_map.mp (List.mem_reverse.mp hlevel)
        have hrange := List.mem_range'_1.mp hother
        have heq := h.distinct other (by omega) ordinal (by omega) hsame
        omega
      · exact hnew ordinal (by rw [List.length_append]; omega) hbefore
    have hnone : middle.leafDepth = none := by
      rcases hmiddle.leafDepth_eq with hnone | ⟨hleaf, -⟩
      · exact hnone
      · cases hleaf
    obtain ⟨state, levels, hstate, hnodes, hlevelsAt, hentries, hpages⟩ := ih
      (by rw [hplan, List.append_assoc]) middle (depth + 1) fuel hfresh hmiddle.kept hnone
    refine ⟨state,
      (List.range' nodes.length branches.length).map (indexNodeAt plan pageFor depth) :: levels,
      ?_, ?_, ?_, ?_, ?_⟩
    · rw [List.length_append, Nat.add_sub_cancel_left, Nat.add_comm nodes.length, Nat.add_assoc,
        hqueue]
      exact hstate
    · rw [hnodes, hmiddle.nodes_eq, List.flatten_cons, List.append_assoc]
    · refine .cons ?_ ?_ (linked_indexNodeAt fun ordinal hge hlt => ?_) hlevelsAt
      · have hlt := (Levels.branches below wide hbranches hsiblings).lt
        rw [List.length_append] at hlt
        exact List.ne_nil_of_length_pos (by rw [List.length_map, List.length_range']; omega)
      · exact List.forall_mem_map.mpr fun ordinal _ => rfl
      · exact hsiblings _ (hnode ordinal hge hlt)
    · rw [hentries, hmiddle.entries_eq, flatMap_entriesAt_branches hplan hbranches, List.append_nil]
    · rw [List.flatten_cons, List.map_append, List.map_map, List.length_append,
        List.range_eq_range', ← List.range'_append_1, List.map_append, ← List.range_eq_range',
        Nat.zero_add]
      exact List.perm_append_comm.trans (hpages.append_right _)

/-- A planned tree that is stored is read back: its entries in order, and each of its pages once. -/
theorem indexTree_stored {maximum physicalIndex fuel : ℕ}
    (hplan : ScalarIndexPages.new (entries.map ScalarIndexEntry.record) maximum = .ok (some plan))
    (h : Stored plan entries pageFor file table)
    (hphysical : table.physicalIndexes[physicalIndex]? = some physical)
    (hroot : physical.root = pageRef pageFor (plan.nodes.length - 1))
    (hfuel : plan.nodes.length ≤ fuel) :
    ∃ nodes, indexTree file table physicalIndex fuel =
        .ok (some { root := physical.root, nodes
                    entries := entries.map fun entry =>
                      readEntry physical table entry.key entry.locator }) ∧
      (nodes.map IndexNode.page).Perm ((List.range plan.nodes.length).map (pageRef pageFor)) := by
  obtain ⟨start, hlevels, hlength⟩ := new_levels hplan
  obtain ⟨fuel, rfl⟩ := Nat.exists_eq_add_of_le hfuel
  obtain ⟨state, levels, hrun, hnodes, hlevelsAt, hentries, hpages⟩ :=
    h.run_levels physical hlevels hlevels
    (List.append_nil _).symm .initial 1 fuel (by simp [TreeState.initial]) kept_empty rfl
  rw [hlength, Nat.add_sub_cancel_left, List.range'_one, List.map_singleton] at hrun
  have hqueue : [pendingAt pageFor 1 start] = rootQueue physical := by
    rw [rootQueue, hroot, hlength, Nat.add_sub_cancel]
    rfl
  have hflat : state.nodes = levels.flatten := hnodes
  refine ⟨state.nodes, ?_, hflat ▸ hpages⟩
  simp only [indexTree, bind_ok_iff, okOr_ok_iff]
  refine ⟨physical, hphysical, some state, ?_, ?_⟩
  · rw [← hqueue, hlength]
    exact hrun
  · have hentries' : state.entries = entries.map fun entry =>
        readEntry physical table entry.key entry.locator := hentries
    simp only [bind_ok_iff, exists_unit, validateSiblingLinks, forM_ok_iff, pure_ok_iff,
      ← hentries', and_true]
    intro level hlevel
    rw [hflat, hlevelsAt.levelsOf] at hlevel
    exact checkLinks_ok_iff.mpr (hlevelsAt.linked level hlevel)

/-- Entries that fit are planned, or need more nodes than there may be. Every node of a plan can be
written, and wherever its nodes are stored they are read back: the entries in their order, each page
once. -/
theorem indexTree_planned {entries : List ScalarIndexEntry} (maximum : ℕ)
    (hfits : ∀ entry ∈ entries, RecordFits entry.record) :
    (∃ plan, ScalarIndexPages.new (entries.map ScalarIndexEntry.record) maximum = .ok (some plan) ∧
        plan.nodes.length + 1 ≤ 2 * max 1 entries.length ∧
        (∀ pageFor owner original ordinal, PagesFor pageFor plan.nodes.length →
          @LT.lt ℕ _ owner (2 ^ 32) → ordinal < plan.nodes.length →
            ∃ page, plan.image ordinal (entries.map ScalarIndexEntry.record) pageFor owner
              original =
              .ok page) ∧
        ∀ pageFor file table physical physicalIndex fuel, Stored plan entries pageFor file table →
          table.physicalIndexes[physicalIndex]? = some physical →
          physical.root = pageRef pageFor (plan.nodes.length - 1) → plan.nodes.length ≤ fuel →
            ∃ nodes, indexTree file table physicalIndex fuel =
                .ok (some { root := physical.root, nodes
                            entries := entries.map fun entry =>
                              readEntry physical table entry.key entry.locator }) ∧
              (nodes.map IndexNode.page).Perm
                ((List.range plan.nodes.length).map (pageRef pageFor))) ∨
      ScalarIndexPages.new (entries.map ScalarIndexEntry.record) maximum =
          .error (.nodeLimit maximum) ∧
        maximum + 1 < 2 * max 1 entries.length := by
  have hrecords : ∀ record ∈ entries.map ScalarIndexEntry.record, RecordFits record :=
    List.forall_mem_map.mpr hfits
  rcases new_total (entries.map ScalarIndexEntry.record) maximum hrecords with
    ⟨plan, start, hplan, hlevels, hlength, hcount⟩ | hlimit
  · rw [List.length_map] at hcount
    refine .inl ⟨plan, hplan, hcount, ?_, ?_⟩
    · intro pageFor owner original ordinal hpages howner hlt
      exact hlevels.exists_image hlength hpages howner original hlt
    · intro pageFor file table physical physicalIndex fuel hstored hphysical hroot hfuel
      exact indexTree_stored hplan hstored hphysical hroot hfuel
  · rw [List.length_map] at hlimit
    exact .inr hlimit

/-! ## A tree of three pages -/

/-- Entries of which two fill a leaf. -/
def wideEntries : List ScalarIndexEntry :=
  [0, 1, 2].map fun slot =>
    { key := 0x7f :: List.replicate 891 slot, locator := { page := 1, slot }, hasNull := false }

/-- A root over two leaves. -/
def widePlan : ScalarIndexPages :=
  { nodes := [{ entries := ⟨0, 2⟩, children := ⟨0, 0⟩, siblings := ⟨0, 2⟩ },
      { entries := ⟨2, 3⟩, children := ⟨0, 0⟩, siblings := ⟨0, 2⟩ },
      { entries := ⟨0, 3⟩, children := ⟨0, 2⟩, siblings := ⟨2, 3⟩ }] }

/-- Three rows of one byte. -/
def wideRows : Page :=
  (((Block.fill pageBytes 0).write 0 [1, 1]).write 4 (leBytes 4 9)).write 8
    [3, 0, 0xff, 0x07, 0xfe, 0x07, 0xfd, 0x07]

/-- An index with its root on page 4. -/
def wideIndex : PhysicalIndexDefinition :=
  { sourcedPrefix := ⟨List.replicate physicalPrefixLen 0, rfl⟩, fields := []
    usageMap := { page := 5, row := 0 }, root := 4, unique := false, required := false
    rawFlags := 0
    rawRecord := ⟨List.replicate physicalRecordLen 0, rfl⟩ }

/-- A table with this index alone. -/
def wideTable : TableDefinition :=
  { root := 9, kind := .user, logicalLength := 45, pages := [9]
    maps := { owned := { page := 5, row := 0 }, available := { page := 5, row := 1 } }
    columns := [], physicalIndexes := [wideIndex], indexes := [], longValueMaps := []
    rawHeader := ⟨List.replicate definitionHeaderLen 0, rfl⟩, rawSuffix := [] }

/-- The page of a node, at the page of its ordinal. -/
def widePage (ordinal : ℕ) : Page :=
  (widePlan.image ordinal (wideEntries.map ScalarIndexEntry.record) (fun node => some (node + 2)) 9
    (Block.fill pageBytes 0)).toOption.getD (Block.fill pageBytes 0)

/-- The three rows and the three pages of the tree. -/
def wideFile : PageFile :=
  [Block.fill pageBytes 0, wideRows, widePage 0, widePage 1, widePage 2]

/-- The plan of the three rows. -/
theorem new_wide :
    ScalarIndexPages.new (wideEntries.map ScalarIndexEntry.record) 5 = .ok (some widePlan) := by
  decide +kernel

/-- Its pages and the rows are in the file. -/
theorem stored_wide :
    Stored widePlan wideEntries (fun ordinal => some (ordinal + 2)) wideFile wideTable := by
  obtain ⟨start, hlevels, hlength⟩ := new_levels new_wide
  have hthree : widePlan.nodes.length = 3 := rfl
  have hcount : readRowCount wideFile 9 1 = .ok 3 := by decide +kernel
  obtain ⟨raw, hraw, hkind, hvalid, hrows⟩ := readRowCount_ok_iff.mp hcount
  refine ⟨fun ordinal hlt => ?_, fun i _ j _ hsame => ?_, fun ordinal _ => ?_, ?_⟩
  · have hpages : PagesFor (fun ordinal => some (ordinal + 2)) widePlan.nodes.length := by
      intro node hnode
      have hsmall : node + 2 < 2 ^ 32 := by omega
      exact ⟨node + 2, rfl, hsmall⟩
    obtain ⟨page, hpage⟩ :=
      hlevels.exists_image hlength hpages (show @LT.lt ℕ _ 9 (2 ^ 32) by decide)
      (Block.fill pageBytes 0) hlt
    refine ⟨_, page, hpage, ?_⟩
    have hwide : widePage ordinal = page := by
      rw [widePage, hpage]
      rfl
    rw [← hwide]
    rw [hthree] at hlt
    interval_cases ordinal <;> rfl
  · simp only [pageRef, Option.getD_some] at hsame
    exact Nat.add_right_cancel hsame
  · simp [pageRef]
  · refine List.forall_mem_map.mpr fun slot hslot => ⟨⟨raw, hraw, hkind, hvalid, hrows ▸ ?_⟩,
      show @LT.lt ℕ _ 1 (2 ^ 24) by decide⟩
    have hall : ∀ slot ∈ ([0, 1, 2] : List UInt8), slot.toNat < 3 := by simp
    exact hall slot hslot

/-- The planned tree of this file is read back. -/
theorem indexTree_planned_wide : ∃ plan nodes,
    ScalarIndexPages.new (wideEntries.map ScalarIndexEntry.record) 5 = .ok (some plan) ∧
      indexTree wideFile wideTable 0 3 =
        .ok (some { root := 4, nodes
                    entries := wideEntries.map fun entry =>
                      readEntry wideIndex wideTable entry.key entry.locator }) ∧
      (nodes.map IndexNode.page).Perm [2, 3, 4] := by
  have hfits : ∀ entry ∈ wideEntries, RecordFits entry.record := by decide +kernel
  rcases indexTree_planned 5 hfits with ⟨plan, hplan, -, -, hreads⟩ | ⟨herror, -⟩
  · have hwide : plan = widePlan := by
      rw [new_wide, Except.ok.injEq, Option.some.injEq] at hplan
      exact hplan.symm
    rw [hwide] at hreads
    obtain ⟨nodes, hread, hpages⟩ :=
      hreads _ wideFile wideTable wideIndex 0 3 stored_wide rfl rfl (by decide)
    exact ⟨widePlan, nodes, new_wide, hread, hpages⟩
  · rw [new_wide] at herror
    cases herror

/-- The tree is one in the sense of `ReadsTree`. -/
theorem indexTree_readsTree_wide : ∃ tree, indexTree wideFile wideTable 0 3 = .ok (some tree) ∧
    ReadsTree wideFile wideTable wideIndex tree := by
  obtain ⟨nodes, hread, -⟩ :=
    @indexTree_stored widePlan wideEntries _ wideFile wideTable wideIndex 5 0 3
    new_wide stored_wide rfl rfl (by decide)
  obtain ⟨physical, hphysical, htree⟩ := indexTree_readsTree hread
  have hwide : wideIndex = physical := Option.some.inj hphysical
  exact ⟨_, hread, hwide ▸ htree⟩

/-- Six visits are enough for six pages. -/
theorem indexTree_ne_none_wide : indexTree wideFile wideTable 0 6 ≠ .ok none :=
  indexTree_ne_none wideFile wideTable 0 (by decide)

end Nodes

end Jet3
