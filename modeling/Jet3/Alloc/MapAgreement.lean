import Jet3.Alloc.Traverse
import Jet3.Create.AllocationMaps
import Jet3.Schema.Map

/-!
# Readers and writers of allocation maps

The two readers of a map, `MapBits` and the streaming traversal, and the two writers, one for a file
that exists and one for a new file, agree on one set of pages.

* `usageMap_agrees` is the agreement;
* `mapFile` is a file in which a set is written, and `usageMap_agrees_small` reads two of them.
-/

namespace Jet3

open Outcome

/-- A traversal starts on its file without a failure. -/
theorem OwnedPages.openMap_start {file : PageFile} {locator : MapRowLocator} {pages : OwnedPages}
    (h : OwnedPages.openMap file locator = .ok pages) :
    pages.file = file ∧ pages.failed = false := by
  simp only [OwnedPages.openMap, bind_ok_iff, pure_ok_iff] at h
  obtain ⟨_, -, _, -, _, -, _, -, rfl⟩ := h
  exact ⟨rfl, rfl⟩

/-- A page past the last slot is past the limit. -/
theorem le_of_slot_le {page : PageNumber}
    (h : indirectReferenceSlots ≤ page / extendedBitmapBits) : pageLimit ≤ page :=
  (Nat.le_div_iff_mul_le (by decide)).mp h

/-- Every map that both readers accept has one set of pages, which the traversal and `existingPages`
list in strictly ascending order; and the rows of the two writers load as the sets they are written
for. A set is refused only where a member is past the last slot of a row, or where the bitmap pages
it needs cannot be placed. -/
theorem usageMap_agrees :
    (∀ (file : PageFile) (locator : MapRowLocator) (map : MapBits) (pages : OwnedPages)
        (listed : List PageNumber), MapBits.load file locator = .ok map →
      OwnedPages.openMap file locator = .ok pages →
      Cursor.Yields OwnedPages.nextPage pages listed →
      map.existingPages file.pageCount false = .ok listed ∧ listed.Pairwise (· < ·) ∧
        ∀ page, map.contains page = true ↔ page ∈ listed) ∧
    (∀ (file : PageFile) (edits : PageEdits) (members : List PageNumber), 0 < edits.firstAppend →
      (∀ edits' locator, UsageMap.create file edits members = .ok (edits', locator) →
        ∀ file' : PageFile,
        (∀ n, edits.appended.length ≤ n → n < edits'.appended.length →
          file'[edits.firstAppend + n]? = edits'.appended[n]?) →
        LoadsAs file' locator members) ∧
      ∀ e, UsageMap.create file edits members = .error e →
        (∃ page ∈ members, pageLimit ≤ page) ∨ ∃ edits image, allocate file edits image =
          .error e) ∧
    ∀ (maps : AllocationMaps) (first : ℕ) (pages : List PageNumber), maps.firstExtra = some first →
      (∀ row maps', maps.row pages = .ok (row, maps') → maps.extra <+: maps'.extra ∧
        ∀ (file : PageFile) (locator : MapRowLocator), HoldsRow file locator row →
          locator.page < first →
          (∀ n, maps.extra.length ≤ n → n < maps'.extra.length →
            file[first + n]? = maps'.extra[n]?.map ExtendedUsageMapEncoder.image) →
          LoadsAs file locator pages) ∧
      ∀ e, maps.row pages = .error e →
        ∃ page ∈ pages, pageLimit ≤ page ∨
          pageLimit ≤ first + maps.extra.length + page / extendedBitmapBits := by
  refine ⟨?_, ?_, ?_⟩
  · intro file locator map pages listed hload hopen hyields
    -- the traversal stands for the pages of the loaded map, and lists what it stands for
    obtain ⟨hfile, hfailed⟩ := OwnedPages.openMap_start hopen
    have hlisted := (OwnedPages.openMap_represents hload hopen).eq_of_yields hfailed hyields
    have hinside := OwnedPages.yields_inside hfailed hyields
    rw [hfile] at hinside
    have hspaced := MapBits.load_spaced hload
    rw [hlisted] at hinside ⊢
    refine ⟨MapBits.existingPages_ok_iff.mpr ⟨fun page hpage => ?_, ?_⟩, hspaced.pairwise_pages,
      fun page => hspaced.contains_iff⟩
    · exact ⟨(hinside page hpage).1, fun _ => (hinside page hpage).2⟩
    · rw [eq_comm, List.filter_eq_self]
      exact fun page hpage => decide_eq_true (hinside page hpage).2
  · -- a map created for a set loads as it, and is refused for too large a page only
    intro file edits members hfirst
    refine ⟨fun edits' locator h file' hstored => UsageMap.create_loadsAs hfirst h hstored,
      fun e h => ?_⟩
    rcases UsageMap.create_error h with ⟨-, hslot⟩ | hallocate
    · refine .inl ⟨_, UsageMap.highest_mem fun hzero => ?_, le_of_slot_le hslot⟩
      rw [hzero] at hslot
      exact absurd hslot (by decide)
    · exact .inr hallocate
  · -- so does the row of a created table, which is refused for a page beyond its limits only
    intro maps first pages hfirst
    refine ⟨fun row maps' h => ⟨AllocationMaps.row_extra hfirst h,
      fun file locator hrow hlocator hstored =>
        AllocationMaps.row_loadsAs hfirst h hrow hlocator hstored⟩, fun e h => ?_⟩
    have hrefused : ¬∃ result, maps.row pages = .ok result := by
      rintro ⟨result, hresult⟩
      cases h.symm.trans hresult
    rw [AllocationMaps.row_ok_iff hfirst, not_or, not_and_or, not_lt, not_lt] at hrefused
    exact ⟨_, AllocationMaps.highest_mem_of_large (not_lt.mpr hrefused.1),
      hrefused.2.imp_right not_lt.mp⟩

/-! ## Files with maps -/

/-- The page of the row of a set, where bitmap pages are numbered from `first` on. -/
def mapPage (first : ℕ) (members : List PageNumber) : Page :=
  match (AllocationMaps.new first).row members with
  | .ok (row, _) => (UsageMap.rowPage row).toOption.getD (Block.fill pageBytes 0)
  | .error _ => Block.fill pageBytes 0

/-- The bitmap pages of a set. -/
def mapBitmaps (first : ℕ) (members : List PageNumber) : List Page :=
  match (AllocationMaps.new first).row members with
  | .ok (_, maps) => maps.extra.map ExtendedUsageMapEncoder.image
  | .error _ => []

/-- Pages that nothing refers to. -/
def unusedPages (count : ℕ) : PageFile :=
  List.replicate count (Block.fill pageBytes 0)

theorem length_unusedPages (count : ℕ) : (unusedPages count).length = count :=
  List.length_replicate

/-- The page of an encoded row, with the bitmap pages the encoder made. -/
theorem mapPage_eq {first : ℕ} {members : List PageNumber} {row : List UInt8}
    {maps : AllocationMaps}
    (hrow : (AllocationMaps.new first).row members = .ok (row, maps))
    (hlength : row.length = indirectRowBytes) :
    UsageMap.rowPage row = .ok (mapPage first members) ∧
      mapBitmaps first members = maps.extra.map ExtendedUsageMapEncoder.image := by
  obtain ⟨image, himage⟩ := UsageMap.exists_rowPage hlength
  rw [mapPage, mapBitmaps, hrow]
  exact ⟨by simp only [himage, Except.toOption, Option.getD_some], rfl⟩

/-- A file with the row of a set on page one, and the bitmap pages it needs. -/
def mapFile (members : List PageNumber) : PageFile :=
  Block.fill pageBytes 0 :: mapPage 2 members :: (mapBitmaps 2 members ++ unusedPages 1500)

/-- The file holds the encoded row, followed by its bitmap pages. -/
theorem holdsRow_mapFile {members : List PageNumber} {row : List UInt8} {maps : AllocationMaps}
    (hrow : (AllocationMaps.new 2).row members = .ok (row, maps))
    (hlength : row.length = indirectRowBytes) :
    (mapFile members).length = maps.extra.length + 1502 ∧
      HoldsRow (mapFile members) globalLocator row ∧
      ∀ n < maps.extra.length,
        (mapFile members)[2 + n]? = maps.extra[n]?.map ExtendedUsageMapEncoder.image := by
  obtain ⟨himage, hbitmaps⟩ := mapPage_eq hrow hlength
  have hcount : (mapBitmaps 2 members).length = maps.extra.length := by
    rw [hbitmaps, List.length_map]
  refine ⟨?_, UsageMap.rowPage_holds hlength himage (by decide) rfl, fun n hn => ?_⟩
  · rw [mapFile, List.length_cons, List.length_cons, List.length_append, hcount, length_unusedPages]
  · rw [mapFile, Nat.add_comm, List.getElem?_cons_succ, List.getElem?_cons_succ,
      List.getElem?_append_left (hcount ▸ hn), hbitmaps, List.getElem?_map]

/-- An inline row and a row of references are read by both readers as the sets they are written for,
and so is the row that an edit adds for a set past the inline window. -/
theorem usageMap_agrees_small :
    (∀ members ∈ [[1, 5], [5, 1400]], LoadsAs (mapFile members) globalLocator members ∧
      ∃ map pages, MapBits.load (mapFile members) globalLocator = .ok map ∧
        OwnedPages.openMap (mapFile members) globalLocator = .ok pages ∧
        map.existingPages (mapFile members).pageCount false = .ok members) ∧
    ∃ edits locator, UsageMap.create (mapFile [1, 5]) (.new 1502) [5, 20000] =
      .ok (edits, locator) ∧
      LoadsAs (edits.overlay (mapFile [1, 5])) locator [5, 20000] := by
  have hwritten : ∀ members ∈ [[1, 5], [5, 1400]], members.Pairwise (· < ·) ∧
      (∀ page ∈ members, page < 1502) ∧
      (OwnedPages.openMap (mapFile members) globalLocator).toOption.isSome = true ∧
      ((AllocationMaps.new 2).row members).toOption.any (fun result =>
        decide (result.1.length = indirectRowBytes)) = true := by
    decide +kernel
  refine ⟨fun members hmembers => ?_, ?_⟩
  · -- both layouts, read back by the map and listed by the traversal
    obtain ⟨hsorted, hsmall, hopen, hrow⟩ := hwritten members hmembers
    obtain ⟨⟨row, maps⟩, hrow, hlength⟩ := exists_ok_and hrow
    obtain ⟨hcount, hholds, hextra⟩ := holdsRow_mapFile hrow (of_decide_eq_true hlength)
    have hloads : LoadsAs (mapFile members) globalLocator members :=
      ((usageMap_agrees.2.2 (.new 2) 2 members rfl).1 row maps hrow).2 (mapFile members)
        globalLocator hholds (by decide) fun n _ hn => hextra n hn
    obtain ⟨map, hload, hpages⟩ := hloads.exists_pages hsorted
    obtain ⟨pages, hopen⟩ := exists_ok hopen
    have hrepresents := OwnedPages.openMap_represents hload hopen
    obtain ⟨hfile, hfailed⟩ := OwnedPages.openMap_start hopen
    rw [hpages] at hrepresents
    have hyields := hrepresents.yields hfailed fun page hpage => by
      have hlt := hsmall page hpage
      rw [hfile, PageFile.pageCount, hcount]
      exact ⟨hlt.trans (by decide), Nat.lt_add_left _ hlt⟩
    exact ⟨hloads, map, pages, hload, hopen,
      (usageMap_agrees.1 (mapFile members) globalLocator map pages members hload hopen hyields).1⟩
  · -- a created map with bitmap pages, read on the file the plan leaves
    obtain ⟨⟨edits, locator⟩, hcreate⟩ := exists_ok
      (x := UsageMap.create (mapFile [1, 5]) (.new 1502) [5, 20000]) (by decide +kernel)
    refine ⟨edits, locator, hcreate, ?_⟩
    obtain ⟨⟨row, maps⟩, hrow, hsmall⟩ := exists_ok_and (x := (AllocationMaps.new 2).row [1, 5])
      (p := fun result => result.1.length = indirectRowBytes ∧ result.2.extra.length = 0)
      (by decide +kernel)
    obtain ⟨hlength, hnone⟩ := of_decide_eq_true hsmall
    have hcount := (holdsRow_mapFile hrow hlength).1
    rw [hnone] at hcount
    refine (usageMap_agrees.2.1 (mapFile [1, 5]) (.new 1502) [5, 20000] (by decide)).1 edits locator
      hcreate _ fun n _ _ => ?_
    have hfirst : (PageEdits.new 1502).firstAppend = (mapFile [1, 5]).length := hcount.symm
    rw [PageEdits.getElem?_overlay_of_le (by omega), hfirst, Nat.add_sub_cancel_left]

end Jet3
