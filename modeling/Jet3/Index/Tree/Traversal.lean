import Jet3.Index.Tree.Reader
import Jet3.Library.Lookup
import Mathlib.Data.List.Perm.Subperm

/-!
# Traversed index trees

What the reader returns is a tree: no page is visited twice, so the traversal ends; every node but
the root is a child of exactly one other, and the leaves stand at one depth.

* `indexTree_ne_none` bounds the steps by the pages of the file;
* `ReadsTree` says what a tree is, and `indexTree_readsTree` that every tree the reader returns is
  one.
-/

namespace Jet3

open Outcome RowReferenceValidator

/-! ## One page -/

/-- The queue item of a node. -/
def IndexNode.pending (node : IndexNode) : PendingNode :=
  { page := node.page, depth := node.depth }

/-- The page of a node holds these entries, or names these children. -/
structure Visits (file : PageFile) (table : TableDefinition) (physical : PhysicalIndexDefinition)
    (node : IndexNode) (contents : List IndexEntry × List PendingNode) : Prop where
  parsed : ∃ raw parsed, file[node.page]? = some raw ∧
    parseNode (classifyPage node.page raw) node.pending table.root file.pageCount raw = .ok parsed ∧
    parsed.node = node ∧
    (node.kind = .leaf → contents.2 = [] ∧
      leafEntries raw parsed physical table file.pageCount = .ok contents.1) ∧
    (node.kind = .intermediate → contents.1 = [] ∧
      childNodes raw parsed file.pageCount = .ok contents.2)

section Visit

variable {file : PageFile} {table : TableDefinition} {physical : PhysicalIndexDefinition}
  {state state' : TreeState} {pending : PendingNode} {children : List PendingNode}

/-- A parsed node is the one that was waited for. -/
theorem parseNode_pending {kind : PageKind} {owner : PageNumber} {pageCount : ℕ} {raw : Page}
    {parsed : ParsedNode} (h : parseNode kind pending owner pageCount raw = .ok parsed) :
    parsed.node.pending = pending := by
  simp only [parseNode, bind_ok_iff, exists_unit, Prod.exists, pure_ok_iff] at h
  obtain ⟨_, -, -, -, -, _, -, _, -, -, _, _, -, -, -, -, rfl⟩ := h
  rfl

/-- What one visited page does. -/
theorem visitNode_ok (h : visitNode file table physical state pending = .ok (state', children)) :
    ∃ node entries rows, node.pending = pending ∧ pending.page ∉ state.visited ∧
      pending.page < file.pageCount ∧
      checkLeafDepth state.leafDepth pending node.kind = .ok state'.leafDepth ∧
      Visits file table physical node (entries, children) ∧
      entries.foldlM (fun rows entry => rows.validate file table.root entry.row) state.rows =
        .ok rows ∧
      state' =
        { visited := pending.page :: state.visited, nodes := state.nodes ++ [node]
          entries := state.entries ++ entries, rows, leafDepth := state'.leafDepth } := by
  simp only [visitNode, bind_ok_iff, exists_unit, refuseIf_ok_iff, mapError_ok_iff, Prod.exists,
    PageFile.readClassifiedPage_ok_iff, validateIndexReference, validateReference, not_not,
    pure_ok_iff, Prod.mk.injEq] at h
  obtain ⟨hlt, hnew, _, ⟨raw, hraw, rfl⟩, parsed, hparsed, leafDepth, hdepth, entries, rows,
    children', hcontents, rfl, rfl⟩ := h
  have hpending := parseNode_pending hparsed
  have hpage : parsed.node.page = pending.page := congrArg PendingNode.page hpending
  refine ⟨parsed.node, entries, rows, hpending, hnew, hlt, hdepth,
    ⟨raw, parsed, ?_, ?_, rfl, ?_, ?_⟩, ?_, rfl⟩
  · rw [hpage]
    exact hraw
  · rw [hpage, hpending]
    exact hparsed
  -- entries of a leaf, children of a branch
  all_goals unfold nodeContents at hcontents
  · intro hkind
    rw [hkind] at hcontents
    simp only [bind_ok_iff, pure_ok_iff, Prod.mk.injEq] at hcontents
    obtain ⟨_, hentries, _, -, ⟨rfl, rfl⟩, rfl⟩ := hcontents
    exact ⟨rfl, hentries⟩
  · intro hkind
    rw [hkind] at hcontents
    simp only [bind_ok_iff, pure_ok_iff, Prod.mk.injEq] at hcontents
    obtain ⟨_, hchildren, ⟨rfl, rfl⟩, rfl⟩ := hcontents
    exact ⟨rfl, hchildren⟩
  · cases hkind : parsed.node.kind with
    | leaf =>
      rw [hkind] at hcontents
      simp only [bind_ok_iff, pure_ok_iff, Prod.mk.injEq] at hcontents
      obtain ⟨_, -, _, hrows, ⟨rfl, rfl⟩, -⟩ := hcontents
      exact hrows
    | intermediate =>
      rw [hkind] at hcontents
      simp only [bind_ok_iff, pure_ok_iff, Prod.mk.injEq] at hcontents
      obtain ⟨_, -, ⟨rfl, rfl⟩, -⟩ := hcontents
      rfl

/-- A branch has a child. -/
theorem Visits.children_ne_nil {node : IndexNode} {contents : List IndexEntry × List PendingNode}
    (h : Visits file table physical node contents) (hkind : node.kind = .intermediate) :
    contents.2 ≠ [] := by
  obtain ⟨raw, parsed, -, -, -, -, hbranch⟩ := h.parsed
  obtain ⟨-, hchildren⟩ := hbranch hkind
  simp only [childNodes, bind_ok_iff, exists_unit, pure_ok_iff] at hchildren
  obtain ⟨_, -, -, hchildren⟩ := hchildren
  rw [← hchildren]
  exact List.append_ne_nil_of_right_ne_nil _ (List.cons_ne_nil _ _)

/-! ## Termination -/

/-- Pages of the file, each once. -/
def PagesOnce (file : PageFile) (pages : List PageNumber) : Prop :=
  pages.Nodup ∧ ∀ page ∈ pages, page < file.pageCount

/-- Pages of a file that are listed once are no more than its pages. -/
theorem PagesOnce.length_le {pages : List PageNumber} (h : PagesOnce file pages) :
    pages.length ≤ file.pageCount := by
  have hsub : pages.Subperm (List.range file.pageCount) :=
    h.1.subperm fun page hpage => List.mem_range.mpr (h.2 page hpage)
  simpa using hsub.length_le

/-- A visit lists another page of the file. -/
theorem PagesOnce.visitNode (hpages : PagesOnce file state.visited)
    (h : visitNode file table physical state pending = .ok (state', children)) :
    PagesOnce file state'.visited ∧ state'.visited.length = state.visited.length + 1 := by
  obtain ⟨_, _, _, -, hnew, hlt, -, -, -, hstate⟩ := visitNode_ok h
  rw [hstate]
  exact ⟨⟨List.nodup_cons.mpr ⟨hnew, hpages.1⟩, List.forall_mem_cons.mpr ⟨hlt, hpages.2⟩⟩, rfl⟩

/-- Every visited page is a new one, so the pages of the file bound the steps. -/
theorem run_visitNode_ne_none {fuel : ℕ} {queue : List PendingNode}
    (hpages : PagesOnce file state.visited) (hfuel : file.pageCount < state.visited.length + fuel) :
    Worklist.run (visitNode file table physical) fuel state queue ≠ .ok none := by
  induction fuel generalizing state queue with
  | zero =>
    have hle := hpages.length_le
    omega
  | succ fuel ih =>
    cases queue with
    | nil =>
      rw [Worklist.run_nil]
      exact fun h => by cases h
    | cons pending rest =>
      rw [Worklist.run_succ_cons]
      intro h
      rw [bind_ok_iff] at h
      obtain ⟨⟨next, children⟩, hstep, hrun⟩ := h
      obtain ⟨hnext, hlength⟩ := hpages.visitNode hstep
      exact ih hnext (by omega) hrun

/-- A traversal ends within as many steps as the file has pages. -/
theorem indexTree_ne_none (file : PageFile) (table : TableDefinition) (physicalIndex : ℕ) {fuel : ℕ}
    (h : file.pageCount < fuel) : indexTree file table physicalIndex fuel ≠ .ok none := by
  intro hnone
  simp only [indexTree, bind_ok_iff, okOr_ok_iff] at hnone
  obtain ⟨physical, -, result, hrun, hresult⟩ := hnone
  cases result with
  | none =>
    exact run_visitNode_ne_none ⟨List.nodup_nil, by simp [TreeState.initial]⟩
      (by simpa [TreeState.initial] using h) hrun
  | some state => simp at hresult

/-! ## Trees -/

/-- The links between the nodes of a level. -/
def Linked (level : List IndexNode) : Prop :=
  ∀ i node, level[i]? = some node →
    node.previous = (if i = 0 then none else level[i - 1]?.map IndexNode.page) ∧
      node.next = level[i + 1]?.map IndexNode.page

/-- The links of a level are checked in both directions. -/
theorem checkLinks_ok_iff {level : List IndexNode} : checkLinks level = .ok () ↔ Linked level := by
  simp only [checkLinks, forM_ok_iff, bind_ok_iff, exists_unit, refuseIf_ok_iff, not_not, ne_eq]
  constructor
  · intro h i node hnode
    exact h (node, i) (List.mem_zipIdx_iff_getElem?.mpr hnode)
  · rintro h ⟨node, i⟩ hmem
    exact h i node (List.mem_zipIdx_iff_getElem?.mp hmem)

/-- Branches before leaves, all of them at one depth. -/
def LeavesLast (nodes : List IndexNode) (leafDepth : Option ℕ) : Prop :=
  ∃ branches leaves, nodes = branches ++ leaves ∧ (∀ node ∈ branches, node.kind = .intermediate) ∧
    (∀ node ∈ leaves, node.kind = .leaf ∧ leafDepth = some node.depth) ∧
    (leafDepth = none → leaves = [])

/-- A tree in the file: the queue of its nodes is the root followed by the children of every node,
and its entries are those of its leaves. -/
structure ReadsTree (file : PageFile) (table : TableDefinition) (physical : PhysicalIndexDefinition)
    (tree : IndexTree) : Prop where
  root_eq : tree.root = physical.root
  contents : ∃ contents : List (List IndexEntry × List PendingNode),
    List.Forall₂ (Visits file table physical) tree.nodes contents ∧
    tree.nodes.map IndexNode.pending = rootQueue physical ++ contents.flatMap Prod.snd ∧
    tree.entries = contents.flatMap Prod.fst
  distinct : PagesOnce file (tree.nodes.map IndexNode.page)
  leaves : ∃ depth, LeavesLast tree.nodes (some depth)
  links : ∀ level ∈ levelsOf tree.nodes, Linked level
  rows : ∀ entry ∈ tree.entries, Listed file table.root entry.row

/-- What holds between two visited pages. -/
structure Traversed (file : PageFile) (table : TableDefinition) (physical : PhysicalIndexDefinition)
    (state : TreeState) (queue : List PendingNode)
    (contents : List (List IndexEntry × List PendingNode)) : Prop where
  visits : List.Forall₂ (Visits file table physical) state.nodes contents
  queue_eq : state.nodes.map IndexNode.pending ++ queue =
    rootQueue physical ++ contents.flatMap Prod.snd
  entries_eq : state.entries = contents.flatMap Prod.fst
  visited_eq : state.visited = (state.nodes.map IndexNode.page).reverse
  pages : PagesOnce file state.visited
  leaves : LeavesLast state.nodes state.leafDepth
  kept : Kept file table.root state.rows
  rows : ∀ entry ∈ state.entries, Listed file table.root entry.row

/-- A leaf keeps the leaves last, and so does a branch before them. -/
theorem LeavesLast.checkLeafDepth {nodes : List IndexNode} {leafDepth leafDepth' : Option ℕ}
    {node : IndexNode} (h : LeavesLast nodes leafDepth)
    (hdepth : checkLeafDepth leafDepth node.pending node.kind = .ok leafDepth') :
    LeavesLast (nodes ++ [node]) leafDepth' := by
  obtain ⟨branches, leaves, rfl, hbranches, hleaves, hnone⟩ := h
  cases hkind : node.kind with
  | leaf =>
    have hsame : leafDepth' = some node.depth ∧ ∀ other ∈ leaves, leafDepth' =
      some other.depth := by
      rw [hkind] at hdepth
      cases leafDepth with
      | none =>
        rw [hnone rfl]
        simp only [Jet3.checkLeafDepth, Except.ok.injEq] at hdepth
        exact ⟨hdepth.symm, by simp⟩
      | some expected =>
        simp only [Jet3.checkLeafDepth, ite_error_ok_iff, not_not, Except.ok.injEq] at hdepth
        obtain ⟨heq, rfl⟩ := hdepth
        exact ⟨congrArg some heq, fun other hother => (hleaves other hother).2⟩
    refine ⟨branches, leaves ++ [node], List.append_assoc _ _ _, hbranches, ?_, fun hempty => ?_⟩
    · intro other hother
      rcases List.mem_append.mp hother with hold | hnew
      · exact ⟨(hleaves other hold).1, hsame.2 other hold⟩
      · rw [List.mem_singleton.mp hnew]
        exact ⟨hkind, hsame.1⟩
    · rw [hsame.1] at hempty
      cases hempty
  | intermediate =>
    rw [hkind] at hdepth
    cases leafDepth with
    | some expected => cases hdepth
    | none =>
      -- no leaf was visited yet
      simp only [Jet3.checkLeafDepth, Except.ok.injEq] at hdepth
      rw [hnone rfl, List.append_nil, ← hdepth]
      refine ⟨branches ++ [node], [], by rw [List.append_nil], ?_, by simp, fun _ => rfl⟩
      intro other hother
      rcases List.mem_append.mp hother with hold | hnew
      · exact hbranches other hold
      · rw [List.mem_singleton.mp hnew]
        exact hkind

/-- Before the first visit only the root is waited for. -/
theorem traversed_initial (file : PageFile) (table : TableDefinition)
    (physical : PhysicalIndexDefinition) :
    Traversed file table physical .initial (rootQueue physical) [] where
  visits := .nil
  queue_eq := rfl
  entries_eq := rfl
  visited_eq := rfl
  pages := ⟨List.nodup_nil, by simp [TreeState.initial]⟩
  leaves := ⟨[], [], rfl, by simp, by simp, fun _ => rfl⟩
  kept := kept_empty
  rows := by simp [TreeState.initial]

/-- Rows that are all accepted are rows of the file. -/
theorem listed_of_foldlM {entries : List IndexEntry} {rows rows' : RowReferenceValidator}
    (hkept : Kept file table.root rows)
    (h : entries.foldlM (fun rows entry => rows.validate file table.root entry.row) rows =
      .ok rows') :
    Kept file table.root rows' ∧ ∀ entry ∈ entries, Listed file table.root entry.row := by
  refine foldlM_ok_induction (fun done rows => Kept file table.root rows ∧
    ∀ entry ∈ done, Listed file table.root entry.row) ⟨hkept, by simp⟩ ?_ h
  rintro done entry rest rows rows' - ⟨hkept, hdone⟩ hstep
  refine ⟨hkept.validate_ok hstep, fun other hother => ?_⟩
  rcases List.mem_append.mp hother with hold | hnew
  · exact hdone other hold
  · rw [List.mem_singleton.mp hnew]
    exact (validate_ok_iff hkept).mp ⟨rows', hstep⟩

/-- A visited page keeps the traversal. -/
theorem Traversed.visitNode {queue : List PendingNode}
    {contents : List (List IndexEntry × List PendingNode)}
    (h : Traversed file table physical state (pending :: queue) contents)
    (hstep : visitNode file table physical state pending = .ok (state', children)) :
    ∃ contents', Traversed file table physical state' (queue ++ children) contents' := by
  have hpages := (h.pages.visitNode hstep).1
  obtain ⟨node, entries, rows, rfl, hnew, hlt, hdepth, hvisits, hrows, hstate⟩ := visitNode_ok hstep
  obtain ⟨hkept, hlisted⟩ := listed_of_foldlM h.kept hrows
  refine ⟨contents ++ [(entries, children)], ?_⟩
  rw [hstate] at hpages ⊢
  have hqueue := h.queue_eq
  exact
    { visits := List.rel_append h.visits (.cons hvisits .nil)
      queue_eq := by
        rw [List.flatMap_append, ← List.append_assoc (rootQueue physical), ← hqueue]
        simp
      entries_eq := by simp [h.entries_eq]
      visited_eq := by simp [h.visited_eq, IndexNode.pending]
      pages := hpages
      leaves := h.leaves.checkLeafDepth hdepth
      kept := hkept
      rows := fun entry hentry => (List.mem_append.mp hentry).elim (h.rows entry) (hlisted entry) }

/-- A tree has a leaf: branches alone would leave a child to visit. -/
theorem Traversed.leafDepth_ne_none {contents : List (List IndexEntry × List PendingNode)}
    (h : Traversed file table physical state [] contents) : state.leafDepth ≠ none := by
  intro hnone
  obtain ⟨branches, leaves, hnodes, hbranches, -, hempty⟩ := h.leaves
  rw [hempty hnone, List.append_nil] at hnodes
  have hcount := congrArg List.length h.queue_eq
  rw [List.append_nil, List.length_map, List.length_append] at hcount
  have hchildren : contents.length ≤ (contents.flatMap Prod.snd).length := by
    have hall : ∀ c ∈ contents, 1 ≤ c.2.length := by
      intro c hc
      obtain ⟨i, hi⟩ := List.mem_iff_getElem?.mp hc
      obtain ⟨node, hnode, hvisits⟩ := Lookup.getElem?_of_forall₂ h.visits.flip hi
      exact List.length_pos_of_ne_nil
        (hvisits.children_ne_nil (hbranches node (hnodes ▸ List.mem_of_getElem? hnode)))
    rw [List.length_flatMap]
    clear hcount h
    induction contents with
    | nil => simp
    | cons c contents ih =>
      have hfirst := hall c List.mem_cons_self
      have hrest := ih fun d hd => hall d (List.mem_cons_of_mem c hd)
      simp only [List.map_cons, List.sum_cons, List.length_cons]
      omega
  have hlength := h.visits.length_eq
  have hroot : (rootQueue physical).length = 1 := rfl
  omega

/-- Every tree the reader returns is one. -/
theorem indexTree_readsTree {physicalIndex fuel : ℕ} {tree : IndexTree}
    (h : indexTree file table physicalIndex fuel = .ok (some tree)) :
    ∃ physical, table.physicalIndexes[physicalIndex]? = some physical ∧
      ReadsTree file table physical tree := by
  simp only [indexTree, bind_ok_iff, okOr_ok_iff] at h
  obtain ⟨physical, hphysical, result, hrun, hresult⟩ := h
  refine ⟨physical, hphysical, ?_⟩
  cases result with
  | none => simp at hresult
  | some state =>
    simp only [bind_ok_iff, exists_unit, validateSiblingLinks, forM_ok_iff, pure_ok_iff,
      Option.some.injEq] at hresult
    obtain ⟨hlinks, rfl⟩ := hresult
    obtain ⟨contents, htraversed⟩ := Worklist.run_induction
      (fun state queue => ∃ contents, Traversed file table physical state queue contents)
      (fun _ _ _ _ _ hinv hstep => hinv.elim fun _ hinv => hinv.visitNode hstep)
      ⟨[], traversed_initial file table physical⟩ hrun
    have hdistinct := htraversed.pages
    rw [htraversed.visited_eq] at hdistinct
    have hqueue := htraversed.queue_eq
    rw [List.append_nil] at hqueue
    obtain ⟨depth, hdepth⟩ := Option.ne_none_iff_exists'.mp htraversed.leafDepth_ne_none
    exact
      { root_eq := rfl
        contents := ⟨contents, htraversed.visits, hqueue, htraversed.entries_eq⟩
        distinct := ⟨List.nodup_reverse.mp hdistinct.1, fun page hpage =>
          hdistinct.2 page (List.mem_reverse.mpr hpage)⟩
        leaves := ⟨depth, hdepth ▸ htraversed.leaves⟩
        links := fun level hlevel => checkLinks_ok_iff.mp (hlinks level hlevel)
        rows := htraversed.rows }

end Visit

end Jet3
