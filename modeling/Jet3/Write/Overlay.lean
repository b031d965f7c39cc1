import Jet3.Library.Lookup
import Jet3.Write.PageEditsSequence

/-!
# What a plan makes of a file

The overlay of a plan, and what each operation of a plan does to it: `setImage` changes one page,
`append` adds one, and a requested map change leaves every page as it is.

`requested` is the membership a plan asks for; `mapBit_requested` says that a map change asks for
one more.
-/

namespace Jet3

open Outcome

variable {file : PageFile} {edits edits' : PageEdits}

namespace PageEdits

@[simp]
theorem length_overlay (file : PageFile) (edits : PageEdits) :
    (edits.overlay file).length = file.length + edits.appended.length := by
  simp [overlay]

/-- A page of the file, as the plan has it. -/
theorem getElem?_overlay_of_lt {n : ℕ} (h : n < file.length) :
    (edits.overlay file)[n]? = file[n]?.map fun raw => edits.current raw n := by
  rw [overlay, List.getElem?_append_left (by simpa using h), List.getElem?_mapIdx]

/-- A page the plan appends. -/
theorem getElem?_overlay_of_le {n : ℕ} (h : file.length ≤ n) :
    (edits.overlay file)[n]? = edits.appended[n - file.length]? := by
  rw [overlay, List.getElem?_append_right (by simpa using h), List.length_mapIdx]

/-- Plans of the same pages have the same overlay. -/
theorem overlay_congr (hchanges : edits'.changes = edits.changes)
    (happended : edits'.appended = edits.appended) : edits'.overlay file = edits.overlay file := by
  simp only [overlay, current, changeOf, hchanges, happended]

/-- A page recorded for the first time is the only one whose change is another. -/
theorem changeOf_addChange {change : PageChange} (hnone : edits.changeOf change.page = none)
    (page : PageNumber) :
    changeOf { edits with changes := edits.changes ++ [change] } page =
      if page = change.page then some change else edits.changeOf page := by
  rw [changeOf, List.find?_append, ← changeOf]
  by_cases h : page = change.page
  · rw [if_pos h, h, hnone]
    simp
  · rw [if_neg h]
    have hne : (change.page = page) = False := by simpa using Ne.symm h
    simp [hne]

/-- A page recorded for the first time is the only one whose bytes are others. -/
theorem overlay_addChange {change : PageChange} (hnone : edits.changeOf change.page = none)
    (hpage : change.page < file.length) :
    overlay file { edits with changes := edits.changes ++ [change] } =
      (edits.overlay file).set change.page change.after := by
  apply List.ext_getElem?
  intro n
  by_cases hn : n < file.length
  · rw [getElem?_overlay_of_lt hn]
    simp only [current, changeOf_addChange hnone]
    by_cases heq : n = change.page
    · have hlt : change.page < (edits.overlay file).length := by
        rw [length_overlay]
        exact Nat.lt_add_right _ hpage
      rw [if_pos heq, heq, List.getElem?_set_self hlt, List.getElem?_eq_getElem hpage,
        Option.map_some]
    · rw [if_neg heq, List.getElem?_set_ne (Ne.symm heq), getElem?_overlay_of_lt hn]
      rfl
  · rw [not_lt] at hn
    rw [getElem?_overlay_of_le hn, List.getElem?_set_ne (Nat.ne_of_lt (lt_of_lt_of_le hpage hn)),
      getElem?_overlay_of_le hn]

/-- The image of a page is set where the plan has not changed that page yet. -/
theorem setImage_overlay {page : ℕ} {image : Page} (hfirst : edits.firstAppend = file.length)
    (hfresh : page < file.length → edits.changeOf page = none)
    (hok : edits.setImage file page image = .ok edits') :
    edits'.overlay file = (edits.overlay file).set page image ∧
      page < (edits.overlay file).length ∧
      (∀ other, other ≠ page → edits'.changeOf other = edits.changeOf other) ∧
      edits'.maps = edits.maps ∧ edits'.firstAppend = edits.firstAppend := by
  unfold setImage at hok
  split at hok
  next hpage =>
    simp only [appendOrdinal, bind_ok_iff, exists_unit, refuseIf_ok_iff, not_not, pure_ok_iff]
      at hok
    obtain ⟨_, ⟨hlt, rfl⟩, rfl⟩ := hok
    rw [hfirst] at hpage hlt
    have hend : page - file.length < edits.appended.length := hlt
    refine ⟨?_, by rw [length_overlay]; omega, fun _ _ => rfl, rfl, rfl⟩
    show file.mapIdx (fun page raw => edits.current raw page) ++
      edits.appended.set (page - edits.firstAppend) image = _
    rw [overlay, List.set_append_right _ _ (by simpa using hpage), List.length_mapIdx, hfirst]
  next hpage =>
    rw [hfirst, not_le] at hpage
    simp only [bind_ok_iff, WriteError.ofError_ok_iff, PageFile.readRawPage_ok_iff] at hok
    obtain ⟨before, hbefore, hok⟩ := hok
    have hnone := hfresh hpage
    simp only [replace, hnone, bind_ok_iff, exists_unit, refuseIf_ok_iff, pure_ok_iff] at hok
    obtain ⟨-, rfl⟩ := hok
    refine ⟨overlay_addChange hnone hpage, ?_, fun other hother => ?_, rfl, rfl⟩
    · rw [length_overlay]
      exact Nat.lt_add_right _ hpage
    · rw [changeOf_addChange hnone, if_neg hother]

/-- A requested map change leaves every page of the plan. -/
theorem mapBit_pages {locator : MapRowLocator} {member : PageNumber} {expected desired : Bool}
    (hok : edits.mapBit file locator member expected desired = .ok edits') :
    edits'.changes = edits.changes ∧ edits'.appended = edits.appended ∧
      edits'.firstAppend = edits.firstAppend := by
  simp only [mapBit, bind_ok_iff, pure_ok_iff] at hok
  obtain ⟨_, -, _, -, _, -, rfl⟩ := hok
  exact ⟨rfl, rfl, rfl⟩

/-- An appended page is the last one. -/
theorem append_pages {image : Page} {page : PageNumber}
    (hok : edits.append image = .ok (edits', page)) :
    edits'.appended = edits.appended ++ [image] ∧
      page = edits.firstAppend + edits.appended.length ∧ page ≤ maxAppendPage ∧
      edits'.changes = edits.changes ∧ edits'.maps = edits.maps ∧
      edits'.firstAppend = edits.firstAppend := by
  simp only [append, nextAppendPage, bind_ok_iff, pure_ok_iff, Prod.mk.injEq] at hok
  obtain ⟨_, hpage, rfl, rfl⟩ := hok
  split at hpage
  next hle =>
    cases hpage
    exact ⟨rfl, rfl, hle, rfl, rfl, rfl⟩
  next => cases hpage

end PageEdits

/-! ## Requested map changes -/

/-- A change of a map gives its page the desired membership and leaves the others. -/
theorem PendingMap.change_lookup {map map' : PendingMap} {page : PageNumber}
    {expected desired : Bool}
    {eof : ℕ} (hok : map.change page expected desired eof = .ok map') (page' : PageNumber) :
    map'.bits = map.bits ∧
      map'.changes.lookup page' = if page' =
        page then some desired else map.changes.lookup page' := by
  simp only [change, bind_ok_iff, exists_unit, refuseIf_ok_iff] at hok
  obtain ⟨-, hok⟩ := hok
  rw [Lookup.lookup_eq_map_find?, Lookup.lookup_eq_map_find?]
  split at hok
  next position hposition =>
    cases hok
    refine ⟨rfl, ?_⟩
    rw [Lookup.find?_set Prod.fst rfl hposition]
    split <;> rfl
  next hnone =>
    cases hok
    refine ⟨rfl, ?_⟩
    have hfind := @Lookup.find?_append_new _ _ _ _ Prod.fst (page, desired) hnone page'
    rw [hfind]
    split <;> rfl

namespace PageEdits

/-- The membership a plan asks for in the map at `locator`. -/
def requested (edits : PageEdits) (locator : MapRowLocator) (page : PageNumber) : Option Bool :=
  (edits.maps.find? fun map => map.bits.locator = locator).bind fun map => map.changes.lookup page

/-- A requested bit is recorded for its page only. -/
theorem mapBit_requested {locator : MapRowLocator} {member : PageNumber} {expected desired : Bool}
    (hok : edits.mapBit file locator member expected desired = .ok edits')
    (locator' : MapRowLocator) (page : PageNumber) :
    edits'.requested locator' page =
      if locator' = locator ∧ page = member then some desired
      else edits.requested locator' page := by
  simp only [mapBit, bind_ok_iff, pure_ok_iff, okOr_ok_iff] at hok
  obtain ⟨⟨maps, position⟩, hfound, map, hmap, map', hchange, rfl⟩ := hok
  obtain ⟨hbits, hlookup⟩ := PendingMap.change_lookup hchange page
  simp only [findMap] at hfound
  split at hfound
  next position' hposition =>
    cases hfound
    have hfirst := Lookup.find?_of_findIdx? hposition
    rw [hmap] at hfirst
    have hlocator : map'.bits.locator = locator := by
      rw [hbits]
      simpa using List.find?_some hfirst
    have hfind := Lookup.find?_set (fun map : PendingMap => map.bits.locator) hlocator hposition
    simp only [requested]
    rw [hfind]
    by_cases h : locator' = locator
    · rw [if_pos h, Option.bind_some, hlookup, h, hfirst, Option.bind_some]
      simp only [true_and]
    · rw [if_neg h, if_neg fun hboth => h hboth.1]
  next hnone =>
    simp only [bind_ok_iff, exists_unit, pure_ok_iff, Prod.mk.injEq] at hfound
    obtain ⟨bits, hload, -, rfl, rfl⟩ := hfound
    rw [List.getElem?_append_right (le_refl _), Nat.sub_self] at hmap
    cases hmap
    have hlocator : map'.bits.locator = locator := by
      rw [hbits]
      exact MapBits.load_locator hload
    have hnew : edits.maps.findIdx? (fun map => map.bits.locator = map'.bits.locator) = none := by
      rw [hlocator]
      exact hnone
    have hset : (edits.maps ++ [PendingMap.new bits]).set edits.maps.length map' =
        edits.maps ++ [map'] := by
      rw [List.set_append_right _ _ (le_refl _), Nat.sub_self, List.set_cons_zero]
    have hfind := Lookup.find?_append_new (fun map : PendingMap => map.bits.locator) hnew
    simp only [requested]
    rw [hset, hfind, hlocator]
    by_cases h : locator' = locator
    · -- the map was not pending, so nothing was requested of it
      have habsent : edits.maps.find? (fun map => map.bits.locator = locator) = none := by
        rw [List.findIdx?_eq_none_iff] at hnone
        rw [List.find?_eq_none]
        exact fun map hmem => Bool.eq_false_iff.mp (hnone map hmem)
      rw [if_pos h, Option.bind_some, hlookup, h, habsent, Option.bind_none]
      simp [PendingMap.new]
    · rw [if_neg h, if_neg fun hboth => h hboth.1]

end PageEdits

end Jet3
