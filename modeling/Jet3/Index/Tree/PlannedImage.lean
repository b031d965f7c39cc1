import Jet3.Index.Tree.NodeImage
import Jet3.Index.Tree.Plan

/-!
# Writing planned index trees

Every node of a plan can be written: what the planner put into a node has room on its page, and the
nodes it refers to have pages.

* `leaf_entriesOf` and `branch_entriesOf` are the entries of a planned node;
* `Levels.exists_image` says that each node of a plan has a page.
-/

namespace Jet3

open Outcome

namespace ScalarIndexPages

variable {plan : ScalarIndexPages} {records : List (List UInt8)} {pageFor : ℕ → Option PageNumber}
  {owner : PageNumber} {node : Node}

/-- A leaf has no children. -/
theorem children_isEmpty (h : node.children = ⟨0, 0⟩) : node.children.isEmpty = true := by
  rw [h]
  rfl

/-- A branch has at least two. -/
theorem children_not_isEmpty (h : node.children.start + 2 ≤ node.children.stop) :
    node.children.isEmpty = false := by
  rw [← Bool.not_eq_true, Range.isEmpty_iff]
  omega

/-- A leaf holds its records. -/
theorem leaf_entriesOf (hleaf : node.children = ⟨0, 0⟩)
    (hstop : node.entries.stop ≤ records.length) :
    plan.entriesOf records pageFor node (List.range node.entryCount) =
      recordsIn records node.entries := by
  have hempty := children_isEmpty hleaf
  rw [entriesOf, Node.entryCount, if_pos hempty, recordsIn]
  refine List.ext_getElem ?_ fun i hi hi' => ?_
  · rw [List.length_map, List.length_range, List.length_take, List.length_drop, Range.len]
    omega
  · rw [List.length_map, List.length_range, Range.len] at hi
    rw [List.getElem_map, List.getElem_range, sourceRecord, if_pos hempty, Node.reference,
      if_pos hempty, List.append_nil, List.getElem_take, List.getElem_drop,
      List.getD_eq_getElem?_getD,
      List.getElem?_eq_getElem (by omega), Option.getD_some]

/-- A branch holds the last record of every node below it but the last one. -/
theorem branch_entriesOf (hpair : node.children.start + 2 ≤ node.children.stop) :
    plan.entriesOf records pageFor node (List.range node.entryCount) =
      (List.range' node.children.start (node.children.stop - 1 - node.children.start)).map
        fun child =>
        maximumRecord records plan.nodes child ++
          beBytes branchChildLen (pageRef pageFor child) := by
  have hempty := children_not_isEmpty hpair
  have hcount : node.entryCount = node.children.stop - 1 - node.children.start := by
    simp only [Node.entryCount, hempty, Range.len, Bool.false_eq_true, if_false]
    omega
  rw [entriesOf, hcount, List.range'_eq_map_range, List.map_map]
  refine List.map_congr_left fun position _ => ?_
  rw [sourceRecord, Node.reference, hempty]
  rfl

/-- A page for every node before `count`. -/
def PagesFor (pageFor : ℕ → Option PageNumber) (count : ℕ) : Prop :=
  ∀ ordinal < count, ∃ page, pageFor ordinal = some page ∧ page < 2 ^ 32

/-- The link to a planned node can be written. -/
theorem exists_writeLink {count : ℕ} (hpages : PagesFor pageFor count) (offset : ℕ)
    (target : Option ℕ)
    (htarget : ∀ ordinal, target = some ordinal → ordinal < count) (image : Page) :
    ∃ image', writeLink pageFor offset target image = .ok image' := by
  cases target with
  | none => exact ⟨image, rfl⟩
  | some ordinal =>
    obtain ⟨page, hpage⟩ := hpages ordinal (htarget ordinal rfl)
    refine ⟨image.write offset (leBytes 4 page), ?_⟩
    rw [writeLink, pageOf_ok_iff.mpr hpage]
    rfl

/-- Entries that fit together are written. -/
theorem exists_writeEntries {count : ℕ} (image : Page)
    (hroom : (plan.entriesOf records pageFor node (List.range count)).flatten.length ≤ entryAreaLen)
    (hfits : ∀ position < count, RecordFits (plan.sourceRecord records node position))
    (hchild : ∀ position < count,
      childReference pageFor node position = .ok (node.reference pageFor position)) :
    ∃ result, (List.range count).foldlM (plan.writeEntry records pageFor node) (image, 0) =
      .ok result := by
  obtain ⟨result, hloop, -⟩ := exists_foldlM_ok (f := plan.writeEntry records pageFor node)
    (l := List.range count) (s := (image, 0))
    (fun done state => state.2 = (plan.entriesOf records pageFor node done).flatten.length) rfl (by
      rintro done position rest ⟨page, used⟩ hsplit hused
      dsimp only at hused
      have hlt : position < count := List.mem_range.mp (by rw [hsplit]; simp)
      have hlength := @length_reference pageFor node position
      -- the entries up to this one are a part of all
      have hupTo : (plan.entriesOf records pageFor node (done ++ [position])).flatten.length ≤
          entryAreaLen := by
        refine le_trans ?_ hroom
        rw [hsplit, show done ++ position :: rest = (done ++ [position]) ++ rest by simp,
          show plan.entriesOf records pageFor node (done ++ [position] ++ rest) =
            _ from List.map_append,
          List.flatten_append, List.length_append]
        exact Nat.le_add_right _ _
      rw [entriesOf_append_singleton, List.flatten_append, List.length_append,
        List.flatten_singleton, List.length_append, ← hused] at hupTo
      have hstep : ∃ image', plan.writeEntry records pageFor node (page, used) position =
          .ok (image', used + ((plan.sourceRecord records node position).length +
            (node.reference pageFor position).length)) := by
        simp only [writeEntry, bind_ok_iff, exists_unit, refuseIf_ok_iff, not_not, not_lt,
          gt_iff_lt, pure_ok_iff, ← hlength]
        exact ⟨_, hfits position hlt, hupTo, _, hchild position hlt, rfl⟩
      obtain ⟨image', hstep⟩ := hstep
      refine ⟨_, hstep, ?_⟩
      dsimp only
      rw [entriesOf_append_singleton, List.flatten_append, List.length_append,
        List.flatten_singleton, List.length_append, ← hused])
  exact ⟨result, hloop⟩

/-- The bytes of the entries of a branch. -/
theorem length_flatten_branch (children : List ℕ) :
    (children.map fun child => maximumRecord records plan.nodes child ++
      beBytes branchChildLen (pageRef pageFor child)).flatten.length =
      (children.map (separatorLen records plan.nodes)).sum := by
  rw [List.length_flatten, List.map_map]
  congr 1
  refine List.map_congr_left fun child _ => ?_
  rw [Function.comp_apply, List.length_append, length_beBytes, separatorLen]

/-- The entries of a planned node have room on its page. -/
theorem entriesOf_room {ordinal : ℕ} (h : Planned records plan.nodes ordinal node) :
    (plan.entriesOf records pageFor node (List.range node.entryCount)).flatten.length ≤
      entryAreaLen := by
  rcases h with ⟨children, stop, room⟩ | ⟨pair, stop, room⟩
  · rwa [leaf_entriesOf children stop]
  · rwa [branch_entriesOf pair, length_flatten_branch]

/-- The records in a planned node are some of those that are indexed. -/
theorem sourceRecord_mem {start ordinal position : ℕ} (h : Levels records plan.nodes start)
    (hlt : ordinal < plan.nodes.length) (hplanned : Planned records plan.nodes ordinal node)
    (hposition : position < node.entryCount) :
    plan.sourceRecord records node position ∈ records := by
  rcases hplanned with ⟨children, stop, -⟩ | ⟨pair, stop, -⟩
  · have hempty := children_isEmpty children
    rw [Node.entryCount, if_pos hempty, Range.len] at hposition
    have hindex : node.entries.start + position < records.length := by omega
    rw [sourceRecord, if_pos hempty, List.getD_eq_getElem?_getD, List.getElem?_eq_getElem hindex,
      Option.getD_some]
    exact List.getElem_mem hindex
  · have hempty := children_not_isEmpty pair
    simp only [Node.entryCount, hempty, Range.len, Bool.false_eq_true, if_false] at hposition
    simp only [sourceRecord, hempty, Bool.false_eq_true, if_false]
    exact h.maximumRecord_mem (by omega) (h.records_ne_nil (by omega))

end ScalarIndexPages

open ScalarIndexPages

/-- Every node of a plan has a page. -/
theorem Levels.exists_image {plan : ScalarIndexPages} {records : List (List UInt8)}
    {start ordinal : ℕ}
    {pageFor : ℕ → Option PageNumber} {owner : PageNumber} (h : Levels records plan.nodes start)
    (hroot : plan.nodes.length = start + 1) (hpages : PagesFor pageFor plan.nodes.length)
    (howner : owner < 2 ^ 32) (original : Page) (hlt : ordinal < plan.nodes.length) :
    ∃ page, plan.image ordinal records pageFor owner original = .ok page := by
  obtain ⟨hplanned, hsiblings⟩ := h.planned hlt
  have hnode : plan.nodes[ordinal]? = some (nodeAt plan.nodes ordinal) := by
    rw [nodeAt, List.getD_eq_getElem?_getD, List.getElem?_eq_getElem hlt, Option.getD_some]
  have hlast : plan.nodes.getLast?.map (fun root => root.entries.stop) = some records.length := by
    rw [List.getLast?_eq_getElem?, hroot, Nat.add_sub_cancel, ← h.root_stop hroot, nodeAt,
      List.getD_eq_getElem?_getD, List.getElem?_eq_getElem (by omega), Option.map_some,
      Option.getD_some]
  generalize nodeAt plan.nodes ordinal = node at hplanned hsiblings hnode
  obtain ⟨page, hpage⟩ := hpages ordinal hlt
  -- the children stand before the node
  have hchildren : node.children.isEmpty = false → node.children.stop ≤ ordinal ∧
      0 < node.children.stop := by
    intro hempty
    rcases hplanned with ⟨children, -, -⟩ | ⟨pair, stop, -⟩
    · rw [children_isEmpty children] at hempty
      cases hempty
    · exact ⟨stop, by omega⟩
  obtain ⟨image₁, h₁⟩ := exists_writeLink hpages 8
    (if 1 ≤ ordinal ∧ node.siblings.start ≤ ordinal - 1 then some (ordinal - 1) else none) (by
      intro target htarget
      rw [Option.ite_none_right_eq_some] at htarget
      obtain ⟨-, htarget⟩ := htarget
      cases htarget
      omega) (ScalarIndexPages.writeHeader original owner (!node.children.isEmpty))
  obtain ⟨image₂, h₂⟩ := exists_writeLink hpages 12
    (if ordinal + 1 < node.siblings.stop then some (ordinal + 1) else none) (by
      intro target htarget
      rw [Option.ite_none_right_eq_some] at htarget
      obtain ⟨hnext, htarget⟩ := htarget
      cases htarget
      omega) image₁
  obtain ⟨image₃, h₃⟩ := exists_writeLink hpages 16
    (if (!node.children.isEmpty) = true then some (node.children.stop - 1) else none) (by
      intro target htarget
      rw [Option.ite_none_right_eq_some] at htarget
      obtain ⟨hbranch, htarget⟩ := htarget
      cases htarget
      obtain ⟨hstop, hpos⟩ := hchildren (by simpa using hbranch)
      omega) image₂
  obtain ⟨result, hloop⟩ := @exists_writeEntries plan records pageFor node node.entryCount image₃
    (entriesOf_room hplanned)
    (fun position hposition => h.fits _ (sourceRecord_mem h hlt hplanned hposition))
    (fun position hposition => childReference_ok_iff.mpr ⟨rfl, fun hempty => hpages _ (by
      obtain ⟨hstop, -⟩ := hchildren hempty
      simp only [Node.entryCount, hempty, Range.len, Bool.false_eq_true, if_false] at hposition
      omega)⟩)
  have hcount : (if (!node.children.isEmpty) =
    true then node.children.len - 1 else node.entries.len) =
      node.entryCount := by
    unfold Node.entryCount
    cases node.children.isEmpty <;> rfl
  rw [← hcount] at hloop
  simp only [image, bind_ok_iff, exists_unit, okOr_ok_iff, refuseIf_ok_iff, Prod.exists,
    pure_ok_iff, not_not, pageOf_ok_iff]
  exact ⟨_, node, hnode, hlast, howner, page, hpage, image₁, h₁, image₂, h₂, image₃, h₃, result.1,
    result.2, hloop, rfl⟩

end Jet3
