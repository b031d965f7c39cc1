import Jet3.Definition.Pieces
import Jet3.Schema.Definition
import Jet3.Write.Overlay

/-!
# Staging definition chains

An edited definition is written over the pages of its old chain. Pages it needs beyond those are
appended and taken out of the global map, and pages of the old chain it no longer needs are given
back.

* `stageBytes` stages a definition in a plan;
* `stageBytes_reads` says that the staged pages are a definition chain, and what it holds.
-/

namespace Jet3

open Outcome

/-- Appends a page and takes it out of the global map. -/
def allocate (file : PageFile) (edits : PageEdits) (image : Page) :
    Except WriteError (PageEdits × PageNumber) := do
  let (edits, page) ← edits.append image
  let edits ← edits.mapBit file globalLocator page true false
  return (edits, page)

/-- Appends one more page to the chain. -/
def allocateNext (file : PageFile) (state : List PageNumber × PageEdits) (_ : ℕ) :
    Except WriteError (List PageNumber × PageEdits) := do
  let (edits, page) ← allocate file state.2 (Block.fill pageBytes 0)
  return (state.1 ++ [page], edits)

/-- The bytes a page of the file has; an appended page starts with zeros. -/
def originalPage (file : PageFile) (page : PageNumber) : Except WriteError Page :=
  if page < file.pageCount then WriteError.ofError (file.readRawPage page)
  else .ok (Block.fill pageBytes 0)

/-- A page of a chain: a piece of the definition, the definition prefix and the link. -/
def chainImage (original : Page) (start : ℕ) (piece : List UInt8) (next : PageNumber) :
    Except Error Page := do
  let image ← writeAt original start piece
  let image ← writeAt image 0 definitionPrefix
  writeAt image 4 (leBytes 4 next)

/-- Stages one page of the chain. The state holds the offset of the next piece. -/
def stagePage (file : PageFile) (bytes : List UInt8) (pages : List PageNumber)
    (state : PageEdits × ℕ) (entry : PageNumber × ℕ) : Except WriteError (PageEdits × ℕ) := do
  let original ← originalPage file entry.1
  let start := if entry.2 = 0 then 0 else 8
  let length := min (bytes.length - state.2) (pageBytes - start)
  let next := pages[entry.2 + 1]?.getD 0
  let image ← WriteError.ofError
    (chainImage original start ((bytes.drop state.2).take length) next)
  let edits ← state.1.setImage file entry.1 image
  return (edits, state.2 + length)

/-- `stage_bytes`. -/
def stageBytes (file : PageFile) (originalPages : List PageNumber) (bytes : List UInt8)
    (edits : PageEdits) : Except WriteError PageEdits := do
  refuseIf (originalPages = []) (.mismatch "definition root missing")
  let count := definitionPageCount bytes.length
  let kept := originalPages.take count
  let (pages, edits) ← (List.range (count - kept.length)).foldlM (allocateNext file) (kept, edits)
  let (edits, _) ← pages.zipIdx.foldlM (stagePage file bytes pages) (edits, 0)
  (originalPages.drop count).foldlM
    (fun edits page => edits.mapBit file globalLocator page false true) edits

/-- Encodes an edited definition and stages it over the pages of the table. -/
def DefinitionEdit.stage (edit : DefinitionEdit) (file : PageFile) (table : TableDefinition)
    (edits : PageEdits) : Except WriteError PageEdits := do
  let bytes ← edit.encode
  stageBytes file table.pages bytes edits

/-! ## The staged pages -/

/-- Only the prefix and the link of a page are written over the piece it holds. -/
theorem chainImage_holds {original image : Page} {start : ℕ} {piece : List UInt8}
    {next : PageNumber}
    (hstart : start ≤ 8) (hnext : next < 2 ^ 32)
    (hok : chainImage original start piece next = .ok image) :
    HoldsPiece image start piece next := by
  simp only [chainImage, bind_ok_iff, writeAt_ok_iff] at hok
  obtain ⟨_, ⟨hfit, rfl⟩, _, ⟨-, rfl⟩, -, rfl⟩ := hok
  have hlink : (leBytes 4 next).length = 4 := length_leBytes 4 next
  have hinitial : definitionPrefix.length = 4 := rfl
  constructor
  · rw [Block.slice_write_of_disjoint _ (.inl (by omega)),
      Block.slice_write_self _ (by omega) (by decide)]
  · rw [nextPage, u32At, Block.le_write_self _ hlink (by decide), leValue_leBytes_of_lt hnext]
  · rw [Block.slice_write_of_disjoint _ (.inr (by omega)),
      Block.slice_write_of_disjoint _ (.inr (by omega)), Block.slice_write_drop _ hstart hfit]

/-- A staged page holds its piece. -/
theorem stagePage_ok {file : PageFile} {bytes : List UInt8} {pages : List PageNumber}
    {edits edits' : PageEdits} {page ordinal offset' : ℕ}
    (hfirst : edits.firstAppend = file.length)
    (hfresh : page < file.length → edits.changeOf page = none)
    (hlink : pages[ordinal + 1]?.getD 0 < 2 ^ 32)
    (hok : stagePage file bytes pages (edits, min bytes.length (pieceOffset ordinal))
      (page, ordinal) =
      .ok (edits', offset')) :
    offset' = min bytes.length (pieceOffset (ordinal + 1)) ∧
      (∃ image, edits'.overlay file = (edits.overlay file).set page image ∧
        HoldsPiece image (pieceStart ordinal) (pieceAt bytes ordinal)
          (pages[ordinal + 1]?.getD 0)) ∧
      page < (edits.overlay file).length ∧
      (∀ other, other ≠ page → edits'.changeOf other = edits.changeOf other) ∧
      edits'.maps = edits.maps ∧ edits'.firstAppend = edits.firstAppend := by
  simp only [stagePage, bind_ok_iff, WriteError.ofError_ok_iff, pure_ok_iff, Prod.mk.injEq] at hok
  obtain ⟨original, -, image, himage, edits'', hset, rfl, rfl⟩ := hok
  have hstart : (if ordinal = 0 then 0 else 8) = pieceStart ordinal := rfl
  rw [hstart] at himage ⊢
  obtain ⟨hoverlay, hstored, hother, hmaps, hsame⟩ := PageEdits.setImage_overlay hfirst hfresh hset
  refine ⟨?_, ⟨image, hoverlay, ?_⟩, hstored, hother, hmaps, hsame⟩
  · rw [pieceOffset_succ]
    omega
  · -- the offset stops at the end of the bytes, behind which pieces are empty
    have hpiece : (bytes.drop (min bytes.length (pieceOffset ordinal))).take
        (min (bytes.length - min bytes.length (pieceOffset ordinal))
          (pageBytes - pieceStart ordinal)) = pieceAt bytes ordinal := by
      have hdrop : bytes.drop (min bytes.length (pieceOffset ordinal)) =
          bytes.drop (pieceOffset ordinal) := by
        rcases Nat.le_total bytes.length (pieceOffset ordinal) with hle | hle
        · rw [Nat.min_eq_left hle, List.drop_length, List.drop_of_length_le hle]
        · rw [Nat.min_eq_right hle]
      rw [hdrop, Nat.min_comm, ← List.take_take, pieceAt]
      congr 1
      exact List.take_of_length_le (by rw [List.length_drop]; omega)
    rw [hpiece] at himage
    exact chainImage_holds (by rw [← hstart]; split <;> omega) hlink himage

/-- The images of a chain: the loop over its pages leaves each with its piece. -/
theorem stagePages_ok {file : PageFile} {bytes : List UInt8} {pages : List PageNumber}
    {edits edits' : PageEdits} {offset' : ℕ} (hfirst : edits.firstAppend = file.length)
    (hdistinct : pages.Nodup)
    (hfresh : ∀ page ∈ pages, page < file.length → edits.changeOf page = none)
    (hlink : ∀ page ∈ pages.tail, page < 2 ^ 32)
    (hok : pages.zipIdx.foldlM (stagePage file bytes pages) (edits, 0) = .ok (edits', offset')) :
    HoldPieces (edits'.overlay file) pages bytes ∧ edits'.maps = edits.maps ∧
      edits'.firstAppend = file.length := by
  have key : (∀ ordinal page, ordinal < pages.zipIdx.length → pages[ordinal]? = some page →
      ∃ image, (edits'.overlay file)[page]? = some image ∧
        HoldsPiece image (pieceStart ordinal) (pieceAt bytes ordinal)
          (pages[ordinal + 1]?.getD 0)) ∧
      (∀ page ∈ pages.drop pages.zipIdx.length, page < file.length → edits'.changeOf page = none) ∧
      offset' = min bytes.length (pieceOffset pages.zipIdx.length) ∧ edits'.maps = edits.maps ∧
      edits'.firstAppend = file.length := by
    refine foldlM_ok_induction (fun done state =>
      (∀ ordinal page, ordinal < done.length → pages[ordinal]? = some page →
        ∃ image, (state.1.overlay file)[page]? = some image ∧
          HoldsPiece image (pieceStart ordinal) (pieceAt bytes ordinal)
            (pages[ordinal + 1]?.getD 0)) ∧
        (∀ page ∈ pages.drop done.length, page < file.length → state.1.changeOf page = none) ∧
        state.2 = min bytes.length (pieceOffset done.length) ∧ state.1.maps = edits.maps ∧
        state.1.firstAppend = file.length)
      ⟨by simp, by simpa using hfresh, by simp [pieceOffset], rfl, hfirst⟩ ?_ hok
    rintro done ⟨page, ordinal⟩ rest ⟨before, offset⟩ ⟨after, offset''⟩ hsplit
      ⟨hheld, hfresh', hoffset, hmaps, hfirst'⟩ hstep
    -- the page is the one after those staged so far
    have hentry : done.length = ordinal ∧ pages[done.length]? = some page := by
      have hget := congrArg (fun entries => entries[done.length]?) hsplit
      simpa [List.getElem?_zipIdx, and_comm] using hget
    obtain ⟨rfl, hpage⟩ := hentry
    obtain ⟨hlt, hpageEq⟩ := List.getElem?_eq_some_iff.mp hpage
    have hremaining : pages.drop done.length = page :: pages.drop (done.length + 1) := by
      rw [List.drop_eq_getElem_cons hlt, hpageEq]
    have hother : ∀ n, n ≠ done.length → ∀ other, pages[n]? = some other → other ≠ page := by
      rintro n hne other hn rfl
      exact hne ((List.getElem?_inj hlt hdistinct).mp (hpage.trans hn.symm)).symm
    have hnext : pages[done.length + 1]?.getD 0 < 2 ^ 32 := by
      rcases hget : pages[done.length + 1]? with _ | next
      · exact Nat.two_pow_pos 32
      · rw [← List.getElem?_tail] at hget
        exact hlink next (List.mem_of_getElem? hget)
    have hoffset' : offset = min bytes.length (pieceOffset done.length) := hoffset
    rw [hoffset'] at hstep
    obtain ⟨hstop, ⟨image, hoverlay, hpiece⟩, hstored, hchange, hmaps', hfirst''⟩ :=
      stagePage_ok hfirst' (hfresh' page (by rw [hremaining]; exact List.mem_cons_self)) hnext hstep
    rw [List.length_append, List.length_singleton]
    refine ⟨?_, ?_, hstop, hmaps'.trans hmaps, hfirst''.trans hfirst'⟩
    · intro n other hn hget
      rw [hoverlay]
      rcases Nat.lt_succ_iff_lt_or_eq.mp hn with hold | rfl
      · obtain ⟨image', himage', hpiece'⟩ := hheld n other hold hget
        rw [List.getElem?_set_ne (Ne.symm (hother n (by omega) other hget))]
        exact ⟨image', himage', hpiece'⟩
      · cases hpage.symm.trans hget
        exact ⟨image, List.getElem?_set_self hstored, hpiece⟩
    · intro other hmem hin
      obtain ⟨n, hn⟩ := List.mem_iff_getElem?.mp hmem
      rw [List.getElem?_drop] at hn
      rw [hchange other (hother _ (by omega) other hn)]
      exact hfresh' other (by rw [hremaining]; exact List.mem_cons_of_mem _ hmem) hin
  rw [List.length_zipIdx] at key
  exact ⟨fun ordinal page hpage => key.1 ordinal page (List.getElem?_eq_some_iff.mp hpage).1 hpage,
    key.2.2.2⟩

/-! ## The appended pages -/

/-- The pages a plan may stage a chain over: distinct pages the plan has, none changed by it yet,
whose numbers fit a link. -/
structure Stageable (file : PageFile) (edits : PageEdits) (pages : List PageNumber) : Prop where
  distinct : pages.Nodup
  nonzero : ∀ page ∈ pages, page ≠ 0
  stored : ∀ page ∈ pages, page < file.length + edits.appended.length
  link_lt : ∀ page ∈ pages.tail, page < 2 ^ 32
  fresh : ∀ page ∈ pages, page < file.length → edits.changeOf page = none

/-- The pages of a chain that was read can be staged over by a plan that has not changed them. -/
theorem stageable_of_read {file : PageFile} {edits : PageEdits} {root : PageNumber}
    {bytes : List UInt8} {maps : TableMapLocations} {pages : List PageNumber}
    (h : readDefinitionChain file root = .ok (bytes, maps, pages))
    (hfresh : ∀ page ∈ pages, edits.changeOf page = none) : Stageable file edits pages := by
  obtain ⟨first, used, terminal, hchain, rfl⟩ := readDefinitionChain_ok_iff.mp h
  exact ⟨hchain.distinct, fun page hpage => (hchain.stored page hpage).1,
    fun page hpage => Nat.lt_add_right _ (hchain.stored page hpage).2, hchain.link_lt,
    fun page hpage _ => hfresh page hpage⟩

/-- One appended page: it is new to the plan, and requested to be taken out of the global map. -/
theorem allocate_ok {file : PageFile} {edits edits' : PageEdits} {image : Page} {page : ℕ}
    (hok : allocate file edits image = .ok (edits', page)) :
    page = edits.firstAppend + edits.appended.length ∧ page ≤ maxAppendPage ∧
      edits'.appended = edits.appended ++ [image] ∧ edits'.changes = edits.changes ∧
      edits'.firstAppend = edits.firstAppend ∧
      ∀ other, edits'.requested globalLocator other =
        if other = page then some false else edits.requested globalLocator other := by
  simp only [allocate, bind_ok_iff, pure_ok_iff, Prod.exists, Prod.mk.injEq] at hok
  obtain ⟨appended, _, happend, _, hmap, rfl, rfl⟩ := hok
  obtain ⟨hchanges, happended, hfirst⟩ := PageEdits.mapBit_pages hmap
  obtain ⟨happended', hpage, hmax, hchanges', hmaps, hfirst'⟩ := PageEdits.append_pages happend
  refine ⟨hpage, hmax, happended.trans happended', hchanges.trans hchanges', hfirst.trans hfirst',
    fun other => ?_⟩
  rw [PageEdits.mapBit_requested hmap globalLocator, PageEdits.requested, PageEdits.requested,
    hmaps]
  simp only [true_and]

/-- The appended pages of a chain: distinct, new to the plan, and requested to be taken out of the
global map. -/
theorem allocateNext_ok {file : PageFile} {edits edits' : PageEdits} {kept pages : List PageNumber}
    {count : ℕ} (hfirst : edits.firstAppend = file.length)
    (hok : (List.range count).foldlM (allocateNext file) (kept, edits) = .ok (pages, edits')) :
    pages = kept ++ List.range' (file.length + edits.appended.length) count ∧
      (∀ page ∈ List.range' (file.length + edits.appended.length) count, page ≤ maxAppendPage) ∧
      edits'.appended.length = edits.appended.length + count ∧ edits'.changes = edits.changes ∧
      edits'.firstAppend = file.length ∧
      ∀ page, edits'.requested globalLocator page =
        if page ∈ List.range' (file.length + edits.appended.length) count then some false
        else edits.requested globalLocator page := by
  -- the pages appended so far, each of them no longer free
  have key := foldlM_ok_induction (fun (done : List ℕ) (state : List PageNumber × PageEdits) =>
    state.1 = kept ++ List.range' (file.length + edits.appended.length) done.length ∧
      (∀ page ∈ List.range' (file.length + edits.appended.length) done.length,
        page ≤ maxAppendPage) ∧
      state.2.appended.length = edits.appended.length + done.length ∧
      state.2.changes = edits.changes ∧ state.2.firstAppend = file.length ∧
      ∀ page, state.2.requested globalLocator page =
        if page ∈ List.range' (file.length + edits.appended.length) done.length then some false
        else edits.requested globalLocator page)
    (by simp [hfirst]) ?_ hok
  · simpa using key
  rintro done n rest ⟨before, plan⟩ ⟨after, plan'⟩ -
    ⟨hpages, hmax, happended, hchanges, hfirst', hrequested⟩ hstep
  dsimp only at hpages happended hchanges hfirst' hrequested
  simp only [allocateNext, bind_ok_iff, pure_ok_iff, Prod.exists, Prod.mk.injEq] at hstep
  obtain ⟨_, page, hallocate, rfl, rfl⟩ := hstep
  obtain ⟨hpage, hle, happended', hchanges', hfirst'', hrequested'⟩ := allocate_ok hallocate
  have hnumber : page = file.length + edits.appended.length + done.length := by
    rw [hpage, hfirst', happended, Nat.add_assoc]
  have hnew : List.range' (file.length + edits.appended.length) (done ++ [n]).length =
      List.range' (file.length + edits.appended.length) done.length ++ [page] := by
    rw [List.length_append, List.length_singleton, List.range'_1_concat, ← hnumber]
  rw [hnew]
  refine ⟨?_, ?_, ?_, hchanges'.trans hchanges, hfirst''.trans hfirst', fun other => ?_⟩
  · show before ++ [page] = _
    rw [hpages, List.append_assoc]
  · intro other hother
    rcases List.mem_append.mp hother with hold | hlast
    · exact hmax other hold
    · rw [List.mem_singleton.mp hlast]
      exact hle
  · dsimp only
    rw [happended', List.length_append, List.length_singleton, happended, List.length_append,
      List.length_singleton, Nat.add_assoc]
  · dsimp only
    rw [hrequested', hrequested]
    by_cases heq : other = page
    · simp [heq]
    · simp [heq]

/-- The surplus pages of a chain are requested to be given back. -/
theorem freeSurplus_ok {file : PageFile} {edits edits' : PageEdits} {surplus : List PageNumber}
    (hok : surplus.foldlM (fun edits page => edits.mapBit file globalLocator page false true)
      edits = .ok edits') :
    edits'.changes = edits.changes ∧ edits'.appended = edits.appended ∧
      ∀ page, edits'.requested globalLocator page =
        if page ∈ surplus then some true else edits.requested globalLocator page := by
  refine foldlM_ok_induction (fun done plan =>
    plan.changes = edits.changes ∧ plan.appended = edits.appended ∧
      ∀ page, plan.requested globalLocator page =
        if page ∈ done then some true else edits.requested globalLocator page)
    (by simp) ?_ hok
  rintro done page _ plan plan' - ⟨hchanges, happended, hrequested⟩ hstep
  obtain ⟨hchanges', happended', -⟩ := PageEdits.mapBit_pages hstep
  refine ⟨hchanges'.trans hchanges, happended'.trans happended, fun other => ?_⟩
  rw [PageEdits.mapBit_requested hstep, hrequested]
  by_cases heq : other = page
  · simp [heq]
  · simp [heq]

/-- The pages of a staged chain: those of the old chain it keeps, and then the appended ones. -/
def stagedPages (file : PageFile) (edits : PageEdits) (originalPages : List PageNumber)
    (length : ℕ) : List PageNumber :=
  originalPages.take (definitionPageCount length) ++
    List.range' (file.length + edits.appended.length)
      (definitionPageCount length - originalPages.length)

section StagedPages

variable {file : PageFile} {edits : PageEdits} {originalPages : List PageNumber} {length : ℕ}

/-- A definition is staged over as many pages as it needs. -/
@[simp]
theorem length_stagedPages :
    (stagedPages file edits originalPages length).length = definitionPageCount length := by
  rw [stagedPages, List.length_append, List.length_take, List.length_range']
  omega

/-- A staged chain starts at the root of the old one. -/
theorem head?_stagedPages (hne : originalPages ≠ []) :
    (stagedPages file edits originalPages length).head? = originalPages.head? := by
  obtain ⟨hpos, -⟩ := definitionPageCount_bounds length
  obtain ⟨root, others, rfl⟩ := List.exists_cons_of_ne_nil hne
  obtain ⟨needed, hneeded⟩ : ∃ needed, definitionPageCount length = needed + 1 :=
    ⟨_, (Nat.sub_add_cancel hpos).symm⟩
  rw [stagedPages, hneeded, List.take_succ_cons]
  rfl

/-- These are pairwise different. -/
theorem Stageable.nodup_stagedPages (h : Stageable file edits originalPages) :
    (stagedPages file edits originalPages length).Nodup := by
  rw [stagedPages, List.nodup_append]
  refine ⟨h.distinct.sublist (List.take_sublist _ _), List.nodup_range' .., ?_⟩
  rintro page hold _ hnew rfl
  have hlt := h.stored page (List.mem_of_mem_take hold)
  have hle := (List.mem_range'_1.mp hnew).1
  exact absurd hlt (not_lt.mpr hle)

/-- None of them is the first page. -/
theorem Stageable.stagedPages_ne_zero (h : Stageable file edits originalPages)
    (hne : originalPages ≠ []) :
    ∀ page ∈ stagedPages file edits originalPages length, page ≠ 0 := by
  obtain ⟨root, hroot⟩ := List.exists_mem_of_ne_nil _ hne
  intro page hpage
  rcases List.mem_append.mp hpage with hold | hnew
  · exact h.nonzero page (List.mem_of_mem_take hold)
  · have hle := (List.mem_range'_1.mp hnew).1
    have hpos := lt_of_le_of_lt (Nat.zero_le _) (h.stored root hroot)
    exact Nat.ne_of_gt (lt_of_lt_of_le hpos hle)

/-- Links to them fit. -/
theorem Stageable.stagedPages_link_lt (h : Stageable file edits originalPages)
    (hne : originalPages ≠ [])
    (hmax : ∀ page ∈ List.range' (file.length + edits.appended.length)
      (definitionPageCount length - originalPages.length), page ≤ maxAppendPage) :
    ∀ page ∈ (stagedPages file edits originalPages length).tail, page < 2 ^ 32 := by
  obtain ⟨hpos, -⟩ := definitionPageCount_bounds length
  obtain ⟨root, others, rfl⟩ := List.exists_cons_of_ne_nil hne
  obtain ⟨needed, hneeded⟩ : ∃ needed, definitionPageCount length = needed + 1 :=
    ⟨_, (Nat.sub_add_cancel hpos).symm⟩
  intro page hpage
  rw [stagedPages, hneeded, List.take_succ_cons, List.cons_append, List.tail_cons] at hpage
  rcases List.mem_append.mp hpage with hold | hnew
  · exact h.link_lt page (List.mem_of_mem_take hold)
  · exact lt_of_le_of_lt (hmax page (hneeded ▸ hnew)) (by decide)

/-- The plan has not changed a page of the staged chain. -/
theorem Stageable.stagedPages_fresh (h : Stageable file edits originalPages) :
    ∀ page ∈ stagedPages file edits originalPages length,
      page < file.length → edits.changeOf page = none := by
  intro page hpage hlt
  rcases List.mem_append.mp hpage with hold | hnew
  · exact h.fresh page (List.mem_of_mem_take hold) hlt
  · have hle := (List.mem_range'_1.mp hnew).1
    exact absurd hlt (not_lt.mpr (le_trans (Nat.le_add_right _ _) hle))

end StagedPages

/-- `stage_bytes`: the staged pages hold the pieces of the definition; the pages the definition
needed are taken out of the global map, and those it gives up are given back. -/
theorem stageBytes_ok {file : PageFile} {edits edits' : PageEdits} {originalPages : List PageNumber}
    {bytes : List UInt8} (hplan : edits.firstAppend = file.length)
    (hpages : Stageable file edits originalPages)
    (hok : stageBytes file originalPages bytes edits = .ok edits') :
    originalPages ≠ [] ∧
      HoldPieces (edits'.overlay file) (stagedPages file edits originalPages bytes.length) bytes ∧
      (∀ page ∈ stagedPages file edits originalPages bytes.length, page ∉ originalPages →
        edits'.requested globalLocator page = some false) ∧
      (∀ page ∈ originalPages, page ∉ stagedPages file edits originalPages bytes.length →
        edits'.requested globalLocator page = some true) := by
  simp only [stageBytes, bind_ok_iff, exists_unit, refuseIf_ok_iff, Prod.exists] at hok
  obtain ⟨hne, pages, allocated, hallocate, staged, offset, hstage, hsurplus⟩ := hok
  obtain ⟨hall, hmax, happended, hchanges, hfirst, hrequested⟩ := allocateNext_ok hplan hallocate
  obtain ⟨hchanges', happended', hrequested'⟩ := freeSurplus_ok hsurplus
  have hcount : definitionPageCount bytes.length -
      (originalPages.take (definitionPageCount bytes.length)).length =
        definitionPageCount bytes.length - originalPages.length := by
    rw [List.length_take]
    omega
  rw [hcount] at hall hmax hrequested
  obtain rfl : pages = stagedPages file edits originalPages bytes.length := hall
  have hfresh : ∀ page ∈ stagedPages file edits originalPages bytes.length, page < file.length →
      allocated.changeOf page = none := by
    intro page hpage hlt
    rw [PageEdits.changeOf, hchanges]
    exact hpages.stagedPages_fresh page hpage hlt
  obtain ⟨hhold, hmaps, -⟩ := stagePages_ok hfirst hpages.nodup_stagedPages hfresh
    (hpages.stagedPages_link_lt hne hmax) hstage
  -- surplus pages are set free, appended ones are taken
  have hstaged : ∀ page, edits'.requested globalLocator page =
      if page ∈ originalPages.drop (definitionPageCount bytes.length) then some true
      else if page ∈ List.range' (file.length + edits.appended.length)
        (definitionPageCount bytes.length - originalPages.length) then some false
      else edits.requested globalLocator page := by
    intro page
    rw [hrequested', PageEdits.requested, hmaps, ← PageEdits.requested, hrequested]
  refine ⟨hne, ?_, ?_, ?_⟩
  · rwa [PageEdits.overlay_congr hchanges' happended']
  · intro page hpage hnew
    rw [hstaged, if_neg fun hmem => hnew (List.mem_of_mem_drop hmem), if_pos]
    rcases List.mem_append.mp hpage with hold | hmem
    · exact absurd (List.mem_of_mem_take hold) hnew
    · exact hmem
  · intro page hpage hgone
    rw [hstaged, if_pos]
    rw [← List.take_append_drop (definitionPageCount bytes.length) originalPages] at hpage
    rcases List.mem_append.mp hpage with hold | hmem
    · exact absurd (List.mem_append_left _ hold) hgone
    · exact hmem

end Jet3
