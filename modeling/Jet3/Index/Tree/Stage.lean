import Jet3.Index.Mutation
import Jet3.Index.Tree.RoundTrip
import Jet3.Schema.DefinitionStaging
import Jet3.Write.PageEditsMerge

/-!
# Staging index trees

A changed index is planned anew over the pages it has. Pages it needs beyond those are appended,
taken out of the global map and put into the map of the index; the root stays where it is.

* `PlacedIndex.stageTree` stages the tree of an index in a plan of edits;
* `stageTree_ok` says where its nodes are, and what else the plan keeps;
* `stageIndexes_reads` says that the staged trees are read back.
-/

namespace Jet3

open Outcome ScalarIndexPages RowReferenceValidator

/-- What a statement reports where an index has no tree. -/
def treeError : TreeBuildError → WriteError
  | .encoding error => .resource error
  | .nodeLimit _ => .unsupported "numeric index node limit"
  | .layout detail => .mismatch detail

/-- An index with the place of its tree: its ordinal, the definition at that ordinal, and the pages
of its map. -/
structure PlacedIndex extends MutableIndex where
  ordinal : ℕ
  physical : PhysicalIndexDefinition
  mapped : List PageNumber

/-- Appends a page, and puts it into the map of the index. -/
def allocateIndexPage (file : PageFile) (usageMap : MapRowLocator)
    (state : List PageNumber × PageEdits) (_ : ℕ) :
    Except WriteError (List PageNumber × PageEdits) := do
  let (edits, page) ← allocate file state.2 (Block.fill pageBytes 0)
  let edits ← edits.mapBit file usageMap page false true
  return (state.1 ++ [page], edits)

/-- Stages one node over the bytes its page has. -/
def stageNode (file : PageFile) (layout : ScalarIndexPages) (records : List (List UInt8))
    (pages : List PageNumber) (owner : PageNumber) (edits : PageEdits) (entry : PageNumber × ℕ) :
    Except WriteError PageEdits := do
  let before ← originalPage file entry.1
  let image ← (layout.image entry.2 records (fun ordinal => pages[ordinal]?) owner before).mapError
    treeError
  edits.setImage file entry.1 image

namespace PlacedIndex

/-- The pages of the old tree that a layout takes over, the root apart. -/
def keptPages (index : PlacedIndex) (count : ℕ) : List PageNumber :=
  (index.mapped.filter fun page => page ≠ index.physical.root).take (count - 1)

/-- `stage_tree`. -/
def stageTree (index : PlacedIndex) (file : PageFile) (owner : PageNumber) (edits : PageEdits) :
    Except WriteError PageEdits := do
  let records := index.entries.map ScalarIndexEntry.record
  let layout ← (ScalarIndexPages.build records (2 ^ 64 - 1)).mapError treeError
  let count := layout.nodes.length
  let kept := index.keptPages count
  let (pages, edits) ← (List.range (count - 1 - kept.length)).foldlM
    (allocateIndexPage file index.physical.usageMap) (kept, edits)
  let pages := pages ++ [index.physical.root]
  pages.zipIdx.foldlM (stageNode file layout records pages owner) edits

end PlacedIndex

/-- The two counters of an index after a change. -/
def CounterChange.counters (change : CounterChange) (first second : ℕ) :
    Except WriteError (ℕ × ℕ) :=
  match change with
  | .increment =>
    if second + 1 < 2 ^ 32 then .ok (first, second + 1)
    else .error (.unsupported "index counter overflow")
  | .removeRelationshipEntry =>
    if first > 0 then .ok (first - 1, min second (first - 1)) else .ok (first, second)

/-- Where a definition has the counters of an index. -/
def physicalPrefixOffset (ordinal : ℕ) : ℕ := definitionHeaderLen + ordinal * physicalPrefixLen

/-- `change_counter`: the counters in the definition, at the prefix of the index. -/
def changeCounter (image : Page) (ordinal : ℕ) (change : CounterChange) :
    Except WriteError Page := do
  let offset := physicalPrefixOffset ordinal
  refuseIf (¬offset + 8 ≤ pageBytes) (.mismatch "index counter offset")
  let (first, second) ← change.counters (image.le offset 4) (image.le (offset + 4) 4)
  WriteError.ofError (writeAt image offset (leBytes 4 first ++ leBytes 4 second))

namespace PlacedIndex

/-- Stages the tree of an index that changed. -/
def stageChanged (index : PlacedIndex) (file : PageFile) (owner : PageNumber) (edits : PageEdits) :
    Except WriteError PageEdits :=
  if index.changed then index.stageTree file owner edits else .ok edits

/-- Writes the counters of an index into the root page of its table. -/
def stageCounter (index : PlacedIndex) (file : PageFile) (owner : PageNumber) (edits : PageEdits) :
    Except WriteError PageEdits :=
  match index.counter with
  | none => .ok edits
  | some change => do
    let before ← WriteError.ofError (file.readRawPage owner)
    let after ← changeCounter before index.ordinal change
    edits.setImage file owner after

/-- `stage`. -/
def stage (index : PlacedIndex) (file : PageFile) (owner : PageNumber) (edits : PageEdits) :
    Except WriteError PageEdits := do
  let edits ← index.stageChanged file owner edits
  index.stageCounter file owner edits

end PlacedIndex

/-- `Indexes::stage`. -/
def stageIndexes (indexes : List PlacedIndex) (file : PageFile) (owner : PageNumber)
    (edits : PageEdits) : Except WriteError PageEdits :=
  indexes.foldlM (fun edits index => index.stage file owner edits) edits

/-! ## Pages of a plan -/

namespace PageEdits

/-- A plan that goes on from another, and changes only these pages of what that one leaves. -/
structure Extends (file : PageFile) (edits edits' : PageEdits) (pages : List PageNumber) :
    Prop where
  firstAppend_eq : edits'.firstAppend = edits.firstAppend
  length_le : (edits.overlay file).length ≤ (edits'.overlay file).length
  overlay_eq : ∀ page, page < (edits.overlay file).length → page ∉ pages →
    (edits'.overlay file)[page]? = (edits.overlay file)[page]?
  changeOf_eq : ∀ page, page < file.length → page ∉ pages → edits'.changeOf page =
    edits.changeOf page

variable {file : PageFile} {edits edits' edits'' : PageEdits} {pages pages' : List PageNumber}

/-- A plan extends itself. -/
theorem Extends.refl (edits : PageEdits) (pages : List PageNumber) :
    Extends file edits edits pages :=
  ⟨rfl, le_rfl, fun _ _ _ => rfl, fun _ _ _ => rfl⟩

/-- Only the pages that were there count. -/
theorem Extends.mono (h : Extends file edits edits' pages)
    (hsub : ∀ page ∈ pages, page < (edits.overlay file).length → page ∈ pages') :
    Extends file edits edits' pages' := by
  refine ⟨h.firstAppend_eq, h.length_le, fun page hlt hout => ?_, fun page hlt hout => ?_⟩
  · exact h.overlay_eq page hlt fun hin => hout (hsub page hin hlt)
  · refine h.changeOf_eq page hlt fun hin => hout (hsub page hin ?_)
    rw [length_overlay]
    exact Nat.lt_add_right _ hlt

/-- A plan that extends an extension extends the first plan. -/
theorem Extends.trans (h : Extends file edits edits' pages)
    (h' : Extends file edits' edits'' pages) :
    Extends file edits edits'' pages :=
  ⟨h'.firstAppend_eq.trans h.firstAppend_eq, h.length_le.trans h'.length_le,
    fun page hlt hout => (h'.overlay_eq page (hlt.trans_le h.length_le) hout).trans
      (h.overlay_eq page hlt hout),
    fun page hlt hout => (h'.changeOf_eq page hlt hout).trans (h.changeOf_eq page hlt hout)⟩

/-- Appended pages stand behind all others. -/
theorem extends_append (hchanges : edits'.changes = edits.changes)
    (hfirst : edits'.firstAppend = edits.firstAppend) {more : List Page}
    (happended : edits'.appended = edits.appended ++ more) : Extends file edits edits' pages := by
  have hoverlay : edits'.overlay file = edits.overlay file ++ more := by
    simp only [overlay, current, changeOf, hchanges, happended, List.append_assoc]
  refine ⟨hfirst, ?_, fun page hlt _ => ?_, fun page _ _ => by rw [changeOf, changeOf, hchanges]⟩
  · rw [hoverlay, List.length_append]
    exact Nat.le_add_right _ _
  · rw [hoverlay, List.getElem?_append_left hlt]

/-- Only the page that is set changes. -/
theorem extends_setImage_singleton {page : ℕ} {image : Page}
    (hfirst : edits.firstAppend = file.length)
    (hok : edits.setImage file page image = .ok edits') : Extends file edits edits' [page] := by
  by_cases hfresh : page < file.length → edits.changeOf page = none
  · obtain ⟨hoverlay, -, hother, -, hfirst'⟩ := setImage_overlay hfirst hfresh hok
    refine ⟨hfirst', by rw [hoverlay, List.length_set],
      fun other _ hout => ?_, fun other _ hout => ?_⟩
    · rw [hoverlay, List.getElem?_set_ne fun h => hout (List.mem_singleton.mpr h.symm)]
    · exact hother other fun h => hout (List.mem_singleton.mpr h)
  · obtain ⟨hlt, hchanged⟩ := Classical.not_imp.mp hfresh
    obtain ⟨change, hchange⟩ := Option.ne_none_iff_exists'.mp hchanged
    have hbefore : ¬page ≥ edits.firstAppend := by rw [hfirst]; exact not_le.mpr hlt
    simp only [setImage, hbefore, if_false, bind_ok_iff, replace, hchange, exists_unit, pure_ok_iff]
      at hok
    obtain ⟨before, -, -, after, -, rfl⟩ := hok
    have hother : ∀ other, other ∉ [page] →
        (edits.setAfter page after).changeOf other = edits.changeOf other := fun other hout => by
      rw [changeOf_setAfter, if_neg fun h => hout (List.mem_singleton.mpr h)]
    refine ⟨rfl, by rw [length_overlay, length_overlay]; rfl, fun other _ hout => ?_,
      fun other _ hout => hother other hout⟩
    have hsame := hother other hout
    rcases Nat.lt_or_ge other file.length with hin | hge
    · rw [getElem?_overlay_of_lt hin, getElem?_overlay_of_lt hin]
      simp only [current, hsame]
    · rw [getElem?_overlay_of_le hge, getElem?_overlay_of_le hge]
      rfl

/-- A page that the plan has not changed yet is set. -/
theorem extends_setImage {page : ℕ} {image : Page} (hfirst : edits.firstAppend = file.length)
    (hfresh : page < file.length → edits.changeOf page = none)
    (hok : edits.setImage file page image = .ok edits') (hpage : page ∈ pages) :
    Extends file edits edits' pages ∧ edits'.maps = edits.maps ∧
      (edits'.overlay file)[page]? = some image := by
  obtain ⟨hoverlay, hlt, hother, hmaps, hfirst'⟩ := setImage_overlay hfirst hfresh hok
  refine ⟨⟨hfirst', ?_, fun other _ hout => ?_, fun other _ hout => hother other ?_⟩, hmaps, ?_⟩
  · rw [hoverlay, List.length_set]
  · rw [hoverlay, List.getElem?_set_ne]
    exact fun heq => hout (heq ▸ hpage)
  · exact fun heq => hout (heq ▸ hpage)
  · rw [hoverlay, List.getElem?_set_self hlt]

end PageEdits

open PageEdits

/-! ## The pages of a tree -/

/-- The other maps keep what is requested of them. -/
theorem allocate_requested {file : PageFile} {edits edits' : PageEdits} {image : Page} {page : ℕ}
    {locator : MapRowLocator} (hlocator : locator ≠ globalLocator)
    (hok : allocate file edits image = .ok (edits', page)) (other : PageNumber) :
    edits'.requested locator other = edits.requested locator other := by
  simp only [allocate, bind_ok_iff, pure_ok_iff, Prod.exists, Prod.mk.injEq] at hok
  obtain ⟨appended, _, happend, _, hbit, rfl, rfl⟩ := hok
  obtain ⟨-, -, -, -, hmaps, -⟩ := append_pages happend
  rw [mapBit_requested hbit, if_neg fun h => hlocator h.1, requested, requested, hmaps]

/-- The appended pages of a tree: new to the plan, and requested for the map of the index. -/
theorem allocateIndexPages_ok {file : PageFile} {usageMap : MapRowLocator}
    {edits edits' : PageEdits}
    {kept pages : List PageNumber} {count : ℕ} (hfirst : edits.firstAppend = file.length)
    (hmap : usageMap ≠ globalLocator)
    (hok : (List.range count).foldlM (allocateIndexPage file usageMap) (kept, edits) =
      .ok (pages, edits')) :
    pages = kept ++ List.range' (file.length + edits.appended.length) count ∧
      edits'.appended = edits.appended ++ List.replicate count (Block.fill pageBytes 0) ∧
      edits'.changes = edits.changes ∧ edits'.firstAppend = file.length ∧
      ∀ page ∈ List.range' (file.length + edits.appended.length) count,
        page ≤ maxAppendPage ∧ edits'.requested globalLocator page = some false ∧
          edits'.requested usageMap page = some true := by
  -- so many pages were appended, each released by the global map and owned by the index
  have key := foldlM_ok_induction (fun (done : List ℕ) (state : List PageNumber × PageEdits) =>
    state.1 = kept ++ List.range' (file.length + edits.appended.length) done.length ∧
      state.2.appended = edits.appended ++ List.replicate done.length (Block.fill pageBytes 0) ∧
      state.2.changes = edits.changes ∧ state.2.firstAppend = file.length ∧
      ∀ page ∈ List.range' (file.length + edits.appended.length) done.length,
        page ≤ maxAppendPage ∧ state.2.requested globalLocator page = some false ∧
          state.2.requested usageMap page = some true)
    (by simp [hfirst]) ?_ hok
  · simpa using key
  rintro done n rest ⟨before, plan⟩ ⟨after, plan'⟩ -
    ⟨hpages, happended, hchanges, hfirst', hrequested⟩ hstep
  dsimp only at hpages happended hchanges hfirst' hrequested
  simp only [allocateIndexPage, bind_ok_iff, pure_ok_iff, Prod.exists, Prod.mk.injEq] at hstep
  obtain ⟨middle, page, hallocate, _, hbit, rfl, rfl⟩ := hstep
  obtain ⟨hpage, hle, happended', hchanges', hfirst'', hrequested'⟩ := allocate_ok hallocate
  obtain ⟨hchangesBit, happendedBit, hfirstBit⟩ := mapBit_pages hbit
  have hrequestedBit := mapBit_requested hbit
  have hnumber : page = file.length + edits.appended.length + done.length := by
    rw [hpage, hfirst', happended, List.length_append, List.length_replicate, Nat.add_assoc]
  rw [List.length_append, List.length_singleton, List.range'_1_concat, ← hnumber]
  refine ⟨?_, ?_, ?_, ?_, ?_⟩
  · show before ++ [page] = _
    rw [hpages, List.append_assoc]
  · show _ = edits.appended ++ List.replicate (done.length + 1) _
    rw [happendedBit, happended', happended, List.append_assoc, ← List.replicate_succ']
  · exact hchangesBit.trans (hchanges'.trans hchanges)
  · exact hfirstBit.trans (hfirst''.trans hfirst')
  · intro other hother
    dsimp only
    rw [hrequestedBit, hrequestedBit, if_neg fun h => hmap h.1.symm, hrequested']
    rcases List.mem_append.mp hother with hold | hlast
    · -- the bits of a page before this one are other bits
      obtain ⟨hmax, hglobal, hown⟩ := hrequested other hold
      have hlt : other < file.length + edits.appended.length + done.length :=
        (List.mem_range'_1.mp hold).2
      have hne : other ≠ page := fun heq => absurd (heq.trans hnumber) (Nat.ne_of_lt hlt)
      rw [if_neg hne, if_neg fun h => hne h.2, allocate_requested hmap hallocate]
      exact ⟨hmax, hglobal, hown⟩
    · rw [List.mem_singleton.mp hlast, if_pos rfl, if_pos ⟨rfl, rfl⟩]
      exact ⟨hle, rfl, rfl⟩

/-! ## The staged nodes -/

/-- Every node is staged on its page, and the other pages stay as they are. -/
theorem stageNodes_ok {file : PageFile} {layout : ScalarIndexPages} {records : List (List UInt8)}
    {pages : List PageNumber} {owner : PageNumber} {edits edits' : PageEdits}
    (hfirst : edits.firstAppend = file.length) (hdistinct : pages.Nodup)
    (hfresh : ∀ page ∈ pages, page < file.length → edits.changeOf page = none)
    (hok : pages.zipIdx.foldlM (stageNode file layout records pages owner) edits = .ok edits') :
    Extends file edits edits' pages ∧ edits'.maps = edits.maps ∧
      ∀ ordinal page, pages[ordinal]? = some page → ∃ before image, layout.image ordinal records
        (fun ordinal => pages[ordinal]?) owner before = .ok image ∧
          (edits'.overlay file)[page]? = some image := by
  have key := foldlM_ok_induction (fun (done : List (PageNumber × ℕ)) (state : PageEdits) =>
    Extends file edits state (pages.take done.length) ∧ state.maps = edits.maps ∧
      ∀ ordinal page, ordinal < done.length → pages[ordinal]? = some page →
        ∃ before image, layout.image ordinal records (fun ordinal => pages[ordinal]?) owner before =
          .ok image ∧ (state.overlay file)[page]? = some image)
    ⟨.refl _ _, rfl, by simp⟩ ?_ hok
  · rw [List.length_zipIdx, List.take_length] at key
    exact ⟨key.1, key.2.1, fun ordinal page hpage =>
      key.2.2 ordinal page (List.getElem?_eq_some_iff.mp hpage).1 hpage⟩
  rintro done ⟨page, ordinal⟩ rest state state' hsplit ⟨hextends, hmaps, hheld⟩ hstep
  have hentry : done.length = ordinal ∧ pages[done.length]? = some page := by
    have hget := congrArg (fun entries => entries[done.length]?) hsplit
    simpa [List.getElem?_zipIdx, and_comm] using hget
  obtain ⟨rfl, hpage⟩ := hentry
  obtain ⟨hlt, hpageEq⟩ := List.getElem?_eq_some_iff.mp hpage
  -- the page was not staged before
  have hnew : page ∉ pages.take done.length := by
    intro hin
    obtain ⟨n, hn⟩ := List.mem_iff_getElem?.mp hin
    rw [List.getElem?_take, Option.ite_none_right_eq_some] at hn
    have hsame := (List.getElem?_inj hlt hdistinct).mp (hpage.trans hn.2.symm)
    omega
  simp only [stageNode, bind_ok_iff, mapError_ok_iff] at hstep
  obtain ⟨before, -, image, himage, hset⟩ := hstep
  have hfresh' : page < file.length → state.changeOf page = none := fun hin => by
    rw [hextends.changeOf_eq page hin hnew]
    exact hfresh page (List.mem_of_getElem? hpage) hin
  obtain ⟨hstep, hmaps', hstored⟩ :=
    extends_setImage (hextends.firstAppend_eq.trans hfirst) hfresh' hset
    (List.mem_singleton_self page)
  rw [List.length_append, List.length_singleton]
  refine ⟨?_, hmaps'.trans hmaps, fun n other hn hget => ?_⟩
  · have htake : pages.take (done.length + 1) = pages.take done.length ++ [page] := by
      rw [List.take_add_one, hpage, Option.toList_some]
    rw [htake]
    exact (hextends.mono fun _ hin _ => List.mem_append_left _ hin).trans
      (hstep.mono fun _ hin _ => List.mem_append_right _ hin)
  · rcases Nat.lt_succ_iff_lt_or_eq.mp hn with hold | rfl
    · obtain ⟨before', image', himage', hstored'⟩ := hheld n other hold hget
      have hne : other ∉ [page] := by
        intro hin
        obtain rfl := List.mem_singleton.mp hin
        have hsame := (List.getElem?_inj hlt hdistinct).mp (hpage.trans hget.symm)
        omega
      refine ⟨before', image', himage', ?_⟩
      rw [hstep.overlay_eq other (List.getElem?_eq_some_iff.mp hstored').1 hne, hstored']
    · cases hpage.symm.trans hget
      exact ⟨before, image, himage, hstored⟩

/-- The pages of the staged tree, the root last. -/
def PlacedIndex.treePages (index : PlacedIndex) (file : PageFile) (edits : PageEdits) (count : ℕ) :
    List PageNumber :=
  index.keptPages count ++ List.range' (file.length + edits.appended.length)
    (count - 1 - (index.keptPages count).length) ++ [index.physical.root]

/-- An index whose tree can be staged: its pages are distinct pages of the file that the plan has
not changed yet. -/
structure Placeable (file : PageFile) (edits : PageEdits) (index : PlacedIndex) : Prop where
  distinct : index.mapped.Nodup
  nonzero : ∀ page ∈ index.physical.root :: index.mapped, page ≠ 0
  stored : ∀ page ∈ index.physical.root :: index.mapped, page < file.length
  fresh : ∀ page ∈ index.physical.root :: index.mapped, edits.changeOf page = none
  map_ne : index.physical.usageMap ≠ globalLocator

namespace Placeable

variable {file : PageFile} {edits : PageEdits} {index : PlacedIndex}

/-- A new tree keeps pages that the index has. -/
theorem keptPages_subset (index : PlacedIndex) (count : ℕ) : index.keptPages count ⊆ index.mapped :=
  fun _ hpage => List.mem_of_mem_filter (List.mem_of_mem_take hpage)

/-- The root is kept apart from the other pages. -/
theorem root_notMem_keptPages (index : PlacedIndex) (count : ℕ) :
    index.physical.root ∉ index.keptPages count := by
  intro hroot
  have hkept := List.of_mem_filter (List.mem_of_mem_take hroot)
  simp at hkept

/-- There is a page for every node. -/
theorem length_treePages {count : ℕ} (hcount : 0 < count) :
    (index.treePages file edits count).length = count := by
  have hkept : (index.keptPages count).length ≤ count - 1 := List.length_take_le _ _
  rw [PlacedIndex.treePages, List.length_append, List.length_append, List.length_range',
    List.length_singleton]
  omega

/-- A page of the tree is one of the old tree, or an appended one. -/
theorem mem_treePages {count : ℕ} {page : PageNumber}
    (h : page ∈ index.treePages file edits count) :
    page ∈ index.physical.root :: index.mapped ∨
    page ∈ List.range' (file.length + edits.appended.length)
      (count - 1 - (index.keptPages count).length) := by
  rcases List.mem_append.mp h with h | h
  · rcases List.mem_append.mp h with h | h
    · exact .inl (List.mem_cons_of_mem _ (keptPages_subset index count h))
    · exact .inr h
  · rw [List.mem_singleton.mp h]
    exact .inl List.mem_cons_self

/-- The pages of a tree are pairwise different. -/
theorem nodup_treePages (h : Placeable file edits index) (count : ℕ) :
    (index.treePages file edits count).Nodup := by
  have happended : ∀ page ∈ index.physical.root :: index.mapped,
      page ∉ List.range' (file.length + edits.appended.length)
        (count - 1 - (index.keptPages count).length) := by
    intro page hpage hnew
    have hlt := h.stored page hpage
    have hle := (List.mem_range'_1.mp hnew).1
    exact absurd hlt (not_lt.mpr ((Nat.le_add_right _ _).trans hle))
  rw [PlacedIndex.treePages, List.nodup_append, List.nodup_append]
  refine ⟨⟨?_, List.nodup_range' .., ?_⟩, List.nodup_singleton _, ?_⟩
  · exact (h.distinct.filter _).sublist (List.take_sublist _ _)
  · rintro page hold _ hnew rfl
    exact happended page (List.mem_cons_of_mem _ (keptPages_subset index count hold)) hnew
  · rintro page hold _ hroot rfl
    rw [List.mem_singleton] at hroot
    subst hroot
    rcases List.mem_append.mp hold with hold | hnew
    · exact root_notMem_keptPages index count hold
    · exact happended _ List.mem_cons_self hnew

/-- No tree uses the first page. -/
theorem treePages_ne_zero (h : Placeable file edits index) {count : ℕ} :
    ∀ page ∈ index.treePages file edits count, page ≠ 0 := by
  intro page hpage
  rcases mem_treePages hpage with hold | hnew
  · exact h.nonzero page hold
  · have hpos : 0 < file.length := (Nat.zero_le _).trans_lt (h.stored _ List.mem_cons_self)
    have hle := (List.mem_range'_1.mp hnew).1
    exact Nat.ne_of_gt (hpos.trans_le ((Nat.le_add_right _ _).trans hle))

end Placeable

/-! ## Staged trees -/

/-- The tree of an index on these pages of a file, the root last. -/
structure StoredTree (file : PageFile) (index : PlacedIndex) (owner : PageNumber)
    (layout : ScalarIndexPages) (pages : List PageNumber) : Prop where
  planned : ScalarIndexPages.new (index.entries.map ScalarIndexEntry.record) (2 ^ 64 - 1) =
    .ok (some layout)
  length_eq : pages.length = layout.nodes.length
  distinct : pages.Nodup
  nonzero : ∀ page ∈ pages, page ≠ 0
  root_eq : pages[layout.nodes.length - 1]? = some index.physical.root
  written : ∀ ordinal page, pages[ordinal]? = some page → ∃ before image,
    layout.image ordinal (index.entries.map ScalarIndexEntry.record)
      (fun ordinal => pages[ordinal]?)
      owner before = .ok image ∧ file[page]? = some image

/-- The pages of the old tree of an index. -/
def PlacedIndex.oldPages (index : PlacedIndex) : List PageNumber :=
  index.physical.root :: index.mapped

/-- A staged tree: a plan that has it, and keeps all pages but those of the old tree. -/
structure StagedTree (file : PageFile) (edits edits' : PageEdits) (index : PlacedIndex)
    (owner : PageNumber) (layout : ScalarIndexPages) (pages : List PageNumber) : Prop extends
    StoredTree (edits'.overlay file) index owner layout pages where
  extended : Extends file edits edits' index.oldPages
  added : ∀ page ∈ pages, page ∉ index.oldPages → (edits.overlay file).length ≤ page ∧
    edits'.requested globalLocator page = some false ∧
      edits'.requested index.physical.usageMap page = some true

/-- `stage_tree` stages the tree of the index. -/
theorem PlacedIndex.stageTree_ok {file : PageFile} {edits edits' : PageEdits} {index : PlacedIndex}
    {owner : PageNumber} (hfirst : edits.firstAppend = file.length) (h : Placeable file edits index)
    (hok : index.stageTree file owner edits = .ok edits') :
    ∃ layout, StagedTree file edits edits' index owner layout
      (index.treePages file edits layout.nodes.length) := by
  simp only [stageTree, bind_ok_iff, mapError_ok_iff, build_ok_iff, Prod.exists] at hok
  obtain ⟨layout, hplan, pages, allocated, hallocate, hstage⟩ := hok
  obtain ⟨start, -, hlength⟩ := new_levels hplan
  have hcount : 0 < layout.nodes.length := by omega
  obtain ⟨rfl, happended, hchanges, hfirst', hrequested⟩ :=
    allocateIndexPages_ok hfirst h.map_ne hallocate
  have hextends : Extends file edits allocated index.oldPages :=
    extends_append hchanges (hfirst'.trans hfirst.symm) happended
  have hfresh : ∀ page ∈ index.treePages file edits layout.nodes.length, page < file.length →
      allocated.changeOf page = none := by
    intro page hpage hlt
    rw [changeOf, hchanges]
    rcases Placeable.mem_treePages hpage with hold | hnew
    · exact h.fresh page hold
    · have hle := (List.mem_range'_1.mp hnew).1
      exact absurd hlt (not_lt.mpr ((Nat.le_add_right _ _).trans hle))
  obtain ⟨hstaged, hmaps, hwritten⟩ := stageNodes_ok hfirst' (h.nodup_treePages layout.nodes.length)
    hfresh hstage
  have hnew : ∀ page ∈ index.treePages file edits layout.nodes.length, page ∉ index.oldPages →
      page ∈ List.range' (file.length + edits.appended.length)
        (layout.nodes.length - 1 - (index.keptPages layout.nodes.length).length) :=
    fun page hpage hout => (Placeable.mem_treePages hpage).resolve_left hout
  refine ⟨layout, ⟨hplan, Placeable.length_treePages hcount, h.nodup_treePages _,
    h.treePages_ne_zero, ?_, hwritten⟩, ?_, fun page hpage hout => ?_⟩
  · have hkept : (index.keptPages layout.nodes.length).length ≤ layout.nodes.length - 1 :=
      List.length_take_le _ _
    rw [treePages, List.getElem?_append_right (by
      rw [List.length_append, List.length_range']
      omega), List.length_append, List.length_range',
      show layout.nodes.length - 1 - ((index.keptPages layout.nodes.length).length +
        (layout.nodes.length - 1 - (index.keptPages layout.nodes.length).length)) = 0 by omega]
    rfl
  · -- the appended pages were not there before
    have hnodes : Extends file edits edits' (index.treePages file edits layout.nodes.length) :=
      (extends_append hchanges (hfirst'.trans hfirst.symm) happended).trans hstaged
    refine hnodes.mono fun page hpage hlt => ?_
    by_contra hout
    have hle := (List.mem_range'_1.mp (hnew page hpage hout)).1
    rw [length_overlay] at hlt
    exact absurd hlt (not_lt.mpr hle)
  · obtain ⟨-, hglobal, hown⟩ := hrequested page (hnew page hpage hout)
    rw [length_overlay, requested, requested, hmaps]
    exact ⟨(List.mem_range'_1.mp (hnew page hpage hout)).1, hglobal, hown⟩

/-! ## Reading staged trees -/

namespace StoredTree

variable {file file' : PageFile} {index : PlacedIndex} {table : TableDefinition}
  {layout : ScalarIndexPages} {pages : List PageNumber}

/-- A stored tree depends on its pages only. -/
theorem congr {owner : PageNumber} (h : StoredTree file index owner layout pages)
    (hsame : ∀ page ∈ pages, file'[page]? = file[page]?) :
    StoredTree file' index owner layout pages := by
  refine { h with written := fun ordinal page hpage => ?_ }
  obtain ⟨before, image, himage, hon⟩ := h.written ordinal page hpage
  exact ⟨before, image, himage, (hsame page (List.mem_of_getElem? hpage)).trans hon⟩

/-- The pages of a stored tree are in the file. -/
theorem lt_length {owner : PageNumber} (h : StoredTree file index owner layout pages) :
    ∀ page ∈ pages, page < file.length := by
  intro page hpage
  obtain ⟨ordinal, hordinal⟩ := List.mem_iff_getElem?.mp hpage
  obtain ⟨_, _, _, hon⟩ := h.written ordinal page hordinal
  exact (List.getElem?_eq_some_iff.mp hon).1

/-- A stored tree has a page for every node. -/
theorem pageRef_eq (h : StoredTree file index table.root layout pages) {ordinal : ℕ}
    (hlt : ordinal < layout.nodes.length) :
    pages[ordinal]? = some (pageRef (fun ordinal => pages[ordinal]?) ordinal) := by
  rw [pageRef, List.getElem?_eq_getElem (h.length_eq ▸ hlt), Option.getD_some]

/-- A stored tree is read back: its entries, in their order. -/
theorem reads (h : StoredTree file index table.root layout pages) {fuel : ℕ}
    (hphysical : table.physicalIndexes[index.ordinal]? = some index.physical)
    (hrows : ∀ entry ∈ index.entries, Listed file table.root entry.locator ∧
      @LT.lt ℕ _ entry.locator.page (2 ^ 24))
    (hfuel : file.pageCount ≤ fuel) :
    ∃ nodes, indexTree file table index.ordinal fuel =
      .ok (some { root := index.physical.root, nodes
                  entries := index.entries.map fun entry =>
                    readEntry index.physical table entry.key entry.locator }) := by
  have hstored : Stored layout index.entries (fun ordinal => pages[ordinal]?) file table := by
    refine ⟨fun ordinal hlt => ?_, fun i hi j hj heq => ?_, fun ordinal hlt => ?_, hrows⟩
    · exact h.written ordinal _ (h.pageRef_eq hlt)
    · have hpage := h.pageRef_eq hi
      rw [heq] at hpage
      exact (List.getElem?_inj (h.length_eq ▸ hi) h.distinct).mp
        (hpage.trans (h.pageRef_eq hj).symm)
    · exact h.nonzero _ (List.mem_of_getElem? (h.pageRef_eq hlt))
  have hroot : index.physical.root =
      pageRef (fun ordinal => pages[ordinal]?) (layout.nodes.length - 1) := by
    rw [pageRef, h.root_eq, Option.getD_some]
  have hcount : layout.nodes.length ≤ file.pageCount :=
    h.length_eq ▸ PagesOnce.length_le ⟨h.distinct, h.lt_length⟩
  obtain ⟨nodes, hread, -⟩ :=
    indexTree_stored h.planned hstored hphysical hroot (hcount.trans hfuel)
  exact ⟨nodes, hread⟩

end StoredTree

/-! ## Staging every index of a table -/

/-- The indexes of a table that can be staged one after the other: no page has two roles. -/
structure AllPlaceable (file : PageFile) (edits : PageEdits) (owner : PageNumber)
    (indexes : List PlacedIndex) : Prop where
  placeable : ∀ index ∈ indexes, Placeable file edits index
  apart : indexes.Pairwise fun a b => a.oldPages.Disjoint b.oldPages
  owner_lt : owner < file.length
  owner_out : ∀ index ∈ indexes, owner ∉ index.oldPages

/-- An index stays placeable while other pages change. -/
theorem Placeable.extend {file : PageFile} {edits edits' : PageEdits} {index : PlacedIndex}
    {pages : List PageNumber} (h : Placeable file edits index)
    (hextends : Extends file edits edits' pages)
    (hout : ∀ page ∈ index.oldPages, page ∉ pages) : Placeable file edits' index :=
  { h with fresh := fun page hpage =>
      (hextends.changeOf_eq page (h.stored page hpage) (hout page hpage)).trans (h.fresh page
        hpage) }

/-- The tree of an index on pages of its own: those it had, or appended ones. -/
def HasTree (file : PageFile) (length : ℕ) (index : PlacedIndex) (owner : PageNumber) : Prop :=
  ∃ layout pages, StoredTree file index owner layout pages ∧
    ∀ page ∈ pages, page ∈ index.oldPages ∨ length ≤ page

/-- Staging an index leaves its tree and changes its own pages only. -/
theorem PlacedIndex.stage_ok {file : PageFile} {edits edits' : PageEdits} {index : PlacedIndex}
    {owner : PageNumber} (hfirst : edits.firstAppend = file.length) (h : Placeable file edits index)
    (howner : owner < file.length) (hout : owner ∉ index.oldPages)
    (hok : index.stage file owner edits = .ok edits') :
    Extends file edits edits' (owner :: index.oldPages) ∧
      (index.changed = true → HasTree (edits'.overlay file) (edits.overlay file).length index
        owner) := by
  simp only [stage, bind_ok_iff] at hok
  obtain ⟨middle, htree, hcounter⟩ := hok
  have hmiddle : Extends file edits middle index.oldPages ∧ (index.changed = true →
      HasTree (middle.overlay file) (edits.overlay file).length index owner) := by
    unfold stageChanged at htree
    split at htree
    next hchanged =>
      obtain ⟨layout, hstaged⟩ := stageTree_ok hfirst h htree
      refine ⟨hstaged.extended, fun _ => ⟨layout, _, hstaged.toStoredTree, fun page hpage => ?_⟩⟩
      exact or_iff_not_imp_left.mpr fun hnew => (hstaged.added page hpage hnew).1
    next hchanged =>
      cases htree
      exact ⟨.refl _ _, fun h => absurd h hchanged⟩
  obtain ⟨hextends, hhas⟩ := hmiddle
  have hroot : Extends file middle edits' [owner] := by
    unfold stageCounter at hcounter
    split at hcounter
    next =>
      cases hcounter
      exact .refl _ _
    next =>
      simp only [bind_ok_iff] at hcounter
      obtain ⟨_, -, _, -, hset⟩ := hcounter
      exact extends_setImage_singleton (hextends.firstAppend_eq.trans hfirst) hset
  refine ⟨(hextends.mono fun page hpage _ => List.mem_cons_of_mem _ hpage).trans
    (hroot.mono fun page hpage _ => List.mem_singleton.mp hpage ▸ List.mem_cons_self),
    fun hchanged => ?_⟩
  obtain ⟨layout, pages, hstored, hpages⟩ := hhas hchanged
  refine ⟨layout, pages, hstored.congr fun page hpage => ?_, hpages⟩
  refine hroot.overlay_eq page (hstored.lt_length page hpage) fun hmem => ?_
  -- the root of the table is neither a page of the old tree nor an appended one
  rw [List.mem_singleton.mp hmem] at hpage
  rcases hpages owner hpage with hold | hnew
  · exact hout hold
  · rw [length_overlay] at hnew
    exact absurd howner (not_lt.mpr ((Nat.le_add_right _ _).trans hnew))

/-- Every index that changed has its tree in the end. -/
theorem stageIndexes_ok {file : PageFile} {edits edits' : PageEdits} {indexes : List PlacedIndex}
    {owner : PageNumber} (hfirst : edits.firstAppend = file.length)
    (h : AllPlaceable file edits owner indexes)
    (hok : stageIndexes indexes file owner edits = .ok edits') :
    Extends file edits edits' (owner :: indexes.flatMap PlacedIndex.oldPages) ∧
      ∀ index ∈ indexes, index.changed = true →
        HasTree (edits'.overlay file) (edits.overlay file).length index owner := by
  refine foldlM_ok_induction (fun done state =>
    Extends file edits state (owner :: done.flatMap PlacedIndex.oldPages) ∧
      ∀ index ∈ done, index.changed = true →
        HasTree (state.overlay file) (edits.overlay file).length index owner)
    ⟨.refl _ _, by simp⟩ ?_ hok
  rintro done index rest state state' hsplit ⟨hextends, hdone⟩ hstep
  have hmem : ∀ other ∈ done ++ [index], other ∈ indexes := by
    intro other hother
    rw [hsplit, show done ++ index :: rest = (done ++ [index]) ++ rest by simp]
    exact List.mem_append_left rest hother
  have hindex := hmem index (by simp)
  have hapart : ∀ other ∈ done, other.oldPages.Disjoint index.oldPages := by
    have hpairwise := h.apart
    rw [hsplit] at hpairwise
    exact fun other hother => (List.pairwise_append.mp hpairwise).2.2 other hother index
      List.mem_cons_self
  have hplace : Placeable file state index := by
    refine (h.placeable index hindex).extend hextends fun page hpage hin => ?_
    rcases List.mem_cons.mp hin with rfl | hin
    · exact h.owner_out index hindex hpage
    · obtain ⟨other, hother, hold⟩ := List.mem_flatMap.mp hin
      exact hapart other hother hold hpage
  obtain ⟨hstage, hhas⟩ :=
    PlacedIndex.stage_ok (hextends.firstAppend_eq.trans hfirst) hplace h.owner_lt
    (h.owner_out index hindex) hstep
  refine ⟨?_, fun other hother hchanged => ?_⟩
  · rw [List.flatMap_append, List.flatMap_singleton]
    refine (hextends.mono fun page hpage _ => ?_).trans (hstage.mono fun page hpage _ => ?_)
    · exact (List.mem_cons.mp hpage).elim (fun heq => heq ▸ List.mem_cons_self)
        fun hin => List.mem_cons_of_mem _ (List.mem_append_left _ hin)
    · exact (List.mem_cons.mp hpage).elim (fun heq => heq ▸ List.mem_cons_self)
        fun hin => List.mem_cons_of_mem _ (List.mem_append_right _ hin)
  · rcases List.mem_append.mp hother with hold | hlast
    · obtain ⟨layout, pages, hstored, hpages⟩ := hdone other hold hchanged
      refine ⟨layout, pages, hstored.congr fun page hpage => ?_, hpages⟩
      refine hstage.overlay_eq page (hstored.lt_length page hpage) fun hin => ?_
      -- a page of an earlier tree is no page of this index, and not the root of the table
      have hbound : ∀ taken ∈ owner :: index.oldPages, taken < (edits.overlay file).length := by
        intro taken htaken
        rw [length_overlay]
        refine Nat.lt_add_right _ ?_
        exact (List.mem_cons.mp htaken).elim (fun heq => heq ▸ h.owner_lt)
          fun hold => (h.placeable index hindex).stored taken hold
      rcases hpages page hpage with hown | hnew
      · rcases List.mem_cons.mp hin with rfl | hin
        · exact h.owner_out other (hmem other hother) hown
        · exact hapart other hold hown hin
      · exact absurd (hbound page hin) (not_lt.mpr hnew)
    · rw [List.mem_singleton.mp hlast] at hchanged ⊢
      obtain ⟨layout, pages, hstored, hpages⟩ := hhas hchanged
      exact ⟨layout, pages, hstored, fun page hpage =>
        (hpages page hpage).imp_right hextends.length_le.trans⟩

/-- The rows of a table in a file. -/
def RowsListed (file : PageFile) (root : PageNumber) (index : PlacedIndex) : Prop :=
  ∀ entry ∈ index.entries, Listed file root entry.locator ∧ @LT.lt ℕ _ entry.locator.page (2 ^ 24)

/-- A changed index is read back as its entries, where the plan touched no data page. -/
theorem reads_staged {file : PageFile} {edits edits' : PageEdits} {table : TableDefinition}
    {fuel : ℕ}
    {pages : List PageNumber} {length : ℕ} {index : PlacedIndex}
    (hextends : Extends file edits edits' pages)
    (htree : HasTree (edits'.overlay file) length index table.root)
    (hkind : ∀ page ∈ pages, ∀ raw, (edits.overlay file)[page]? = some raw →
      classifyPage page raw ≠ .data)
    (hfuel : (edits'.overlay file).pageCount ≤ fuel)
    (hphysical : table.physicalIndexes[index.ordinal]? = some index.physical)
    (hrows : RowsListed (edits.overlay file) table.root index) :
    ∃ nodes, indexTree (edits'.overlay file) table index.ordinal fuel =
      .ok (some { root := index.physical.root, nodes
                  entries := index.entries.map fun entry =>
                    readEntry index.physical table entry.key entry.locator }) := by
  obtain ⟨layout, trees, hstored, -⟩ := htree
  refine hstored.reads hphysical (fun entry hentry => ?_) hfuel
  obtain ⟨⟨raw, hraw, hdata, hvalid⟩, hsmall⟩ := hrows entry hentry
  refine ⟨⟨raw, ?_, hdata, hvalid⟩, hsmall⟩
  rw [hextends.overlay_eq _ (List.getElem?_eq_some_iff.mp hraw).1 fun hin =>
    hkind _ hin raw hraw hdata, hraw]

/-- Every index that changed is read back as its entries, whatever was staged for the others. -/
theorem stageIndexes_reads {file : PageFile} {edits edits' : PageEdits} {indexes : List PlacedIndex}
    {table : TableDefinition} {fuel : ℕ} (hfirst : edits.firstAppend = file.length)
    (h : AllPlaceable file edits table.root indexes)
    (hkind : ∀ page ∈ table.root :: indexes.flatMap PlacedIndex.oldPages, ∀ raw,
      (edits.overlay file)[page]? = some raw → classifyPage page raw ≠ .data)
    (hok : stageIndexes indexes file table.root edits = .ok edits')
    (hfuel : (edits'.overlay file).pageCount ≤ fuel) {index : PlacedIndex}
    (hindex : index ∈ indexes)
    (hchanged : index.changed = true)
    (hphysical : table.physicalIndexes[index.ordinal]? = some index.physical)
    (hrows : RowsListed (edits.overlay file) table.root index) :
    ∃ nodes, indexTree (edits'.overlay file) table index.ordinal fuel =
      .ok (some { root := index.physical.root, nodes
                  entries := index.entries.map fun entry =>
                    readEntry index.physical table entry.key entry.locator }) := by
  obtain ⟨hextends, htrees⟩ := stageIndexes_ok hfirst h hok
  exact reads_staged hextends (htrees index hindex hchanged) hkind hfuel hphysical hrows

/-! ## Two indexes of a table -/

/-- A data page whose one row is an inline map of the pages below 16. -/
def stagingMapPage (low high : UInt8) : Page :=
  (((Block.fill pageBytes 0).write 0 [1]).write 8 [1, 0, 0xf9, 0x07]).write 2046 [low, high]

/-- A leaf page without entries. -/
def indexPage : Page :=
  (Block.fill pageBytes 0).write 0 [4]

/-- A table on the page 9 with three rows on the page 2. Its first index has the pages 4 to 6, and
the second one the pages 7 and 8, with their maps on the pages 10 and 3. The page behind the file is
free. -/
def stagingFile : PageFile :=
  [Block.fill pageBytes 0, stagingMapPage 0 8, wideRows, stagingMapPage 0x80 1, indexPage,
    indexPage, indexPage, indexPage, indexPage, (Block.fill pageBytes 0).write 0 [2],
    stagingMapPage 0x70 0]

/-- The first index, its root on page 6. -/
def firstPhysical : PhysicalIndexDefinition :=
  { wideIndex with root := 6, usageMap := { page := 10, row := 0 } }

/-- The second index, its root on page 8. -/
def secondPhysical : PhysicalIndexDefinition :=
  { wideIndex with root := 8, usageMap := { page := 3, row := 0 } }

/-- The table of the two indexes. -/
def stagingTable : TableDefinition :=
  { wideTable with physicalIndexes := [firstPhysical, secondPhysical] }

/-- Entries of the three rows, of which two fill a leaf. -/
def stagingEntries : List ScalarIndexEntry :=
  [0, 1, 2].map fun slot =>
    { key := 0x7f :: List.replicate 891 slot, locator := { page := 2, slot }, hasNull := false }

/-- An index of the table that changed. -/
def stagingIndex (ordinal : ℕ) (physical : PhysicalIndexDefinition) (mapped : List PageNumber) :
    PlacedIndex :=
  { fields := [], nullPolicy := .include, unique := false, entries := stagingEntries,
    changed := true
    relationshipCounter := false, counter := some .increment, ordinal, physical, mapped }

/-- The second index has one page less than its tree needs. -/
def stagingIndexes : List PlacedIndex :=
  [stagingIndex 0 firstPhysical [4, 5, 6], stagingIndex 1 secondPhysical [7, 8]]

/-- The pages of the table, and the rows of its entries. -/
theorem staging_pages :
    (∀ page ∈ [9, 6, 4, 5, 6, 8, 7, 8], page ≠ 0 ∧ page < stagingFile.length ∧
      ∀ raw, ((PageEdits.new 11).overlay stagingFile)[page]? = some raw →
        classifyPage page raw ≠ .data) ∧
    ∀ slot : UInt8, slot.toNat < 3 →
      Listed ((PageEdits.new 11).overlay stagingFile) 9 { page := 2, slot } := by
  have hkinds : ∀ page ∈ ([9, 6, 4, 5, 6, 8, 7, 8] : List ℕ), page ≠ 0 ∧ page < 11 ∧
      ((PageEdits.new 11).overlay stagingFile)[page]?.all
        fun raw => decide (classifyPage page raw ≠ .data) := by
    decide +kernel
  have hcount : readRowCount stagingFile 9 2 = .ok 3 := by decide +kernel
  obtain ⟨raw, hraw, hkind, hvalid, hrows⟩ := readRowCount_ok_iff.mp hcount
  refine ⟨fun page hpage => ?_, fun slot hslot => ⟨raw, ?_, hkind, hvalid, hrows ▸ hslot⟩⟩
  · obtain ⟨hne, hlt, hall⟩ := hkinds page hpage
    refine ⟨hne, hlt, fun raw hraw => ?_⟩
    rwa [hraw, Option.all_some, decide_eq_true_eq] at hall
  · rw [getElem?_overlay_of_lt (show 2 < stagingFile.length by decide), hraw]
    rfl

/-- Both indexes are read back, although the second one takes a new page. -/
theorem stageIndexes_reads_staging : ∃ edits',
    stageIndexes stagingIndexes stagingFile 9 (.new 11) = .ok edits' ∧ edits'.appended.length = 1 ∧
      ∀ index ∈ stagingIndexes, ∃ nodes,
        indexTree (edits'.overlay stagingFile) stagingTable index.ordinal 12 =
          .ok (some { root := index.physical.root, nodes
                      entries := stagingEntries.map fun entry =>
                        readEntry index.physical stagingTable entry.key entry.locator }) := by
  obtain ⟨edits', hedits, happended⟩ := exists_ok_and
    (x := stageIndexes stagingIndexes stagingFile 9 (.new 11))
    (p := fun edits => decide (edits.appended.length = 1)) (by decide +kernel)
  have hone : edits'.appended.length = 1 := of_decide_eq_true happended
  obtain ⟨hpages, hlisted⟩ := staging_pages
  have hin : ∀ index ∈ stagingIndexes, ∀ page ∈ index.oldPages,
      page ∈ ([9, 6, 4, 5, 6, 8, 7, 8] : List ℕ) := by
    decide
  -- the pages of both indexes are stored, unchanged so far and apart
  have hplace : AllPlaceable stagingFile (.new 11) 9 stagingIndexes := by
    refine ⟨fun index hindex => ?_, ?_, by decide, by decide⟩
    · have hold := fun page hpage => hpages page (hin index hindex page hpage)
      have hmaps : ∀ index ∈ stagingIndexes, index.mapped.Nodup ∧
          index.physical.usageMap ≠ globalLocator := by decide
      exact ⟨(hmaps index hindex).1, fun page hpage => (hold page hpage).1,
        fun page hpage => (hold page hpage).2.1, fun _ _ => rfl, (hmaps index hindex).2⟩
    · have hapart : ∀ page ∈ ([6, 4, 5, 6] : List ℕ), page ∉ ([8, 7, 8] : List ℕ) := by decide
      exact List.pairwise_pair.mpr fun page hpage => hapart page hpage
  refine ⟨edits', hedits, hone, fun index hindex => ?_⟩
  have hindexes : ∀ index ∈ stagingIndexes, index.changed = true ∧ index.entries = stagingEntries ∧
      stagingTable.physicalIndexes[index.ordinal]? = some index.physical := by
    simp [stagingIndexes, stagingIndex, stagingTable]
  obtain ⟨hchanged, hentries, hphysical⟩ := hindexes index hindex
  rw [← hentries]
  refine @stageIndexes_reads stagingFile (.new 11) edits' stagingIndexes stagingTable 12 rfl hplace
    (fun page hpage raw hraw => ?_) hedits ?_ index hindex hchanged hphysical ?_
  · refine (hpages page ?_).2.2 raw hraw
    rcases List.mem_cons.mp hpage with rfl | hpage
    · exact List.mem_cons_self
    · obtain ⟨index, hindex, hold⟩ := List.mem_flatMap.mp hpage
      exact hin index hindex page hold
  · show (edits'.overlay stagingFile).length ≤ 12
    rw [length_overlay, hone]
    decide
  · rw [RowsListed, hentries]
    have hsmall : ∀ slot ∈ ([0, 1, 2] : List UInt8), slot.toNat < 3 := by simp
    have hwidth : @LT.lt ℕ _ 2 (2 ^ 24) := by decide
    exact List.forall_mem_map.mpr fun slot hslot => ⟨hlisted slot (hsmall slot hslot), hwidth⟩

end Jet3
