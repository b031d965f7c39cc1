import Jet3.Create.InitialLongValues

/-!
# The two plans of the payload pages agree

The running page number of the row encoder is where `InitialLongValues` places the payload, so every
descriptor stands for its own payload once the planned pages are in the file.

* `place_ok` says which pages one payload gets, and `readsAs_group` that its header reads them;
* `Stands` says what a lowered value stands for;
* `lowerRow_lockstep` keeps both walks together over a row.
-/

namespace Jet3

open Outcome LongValue

/-! ## The pages of one payload -/

/-- The row that follows the fragment `i` of a chain of `count` rows from page `start` on. -/
def followingRow (start count i : ℕ) : Option RowLocator :=
  if i + 1 < count then some { page := start + i + 1, slot := 0 } else none

/-- A page that holds one fragment of a chain. -/
def HoldsFragment (start count : ℕ) (entry : List UInt8 × ℕ) (page : PayloadPage) : Prop :=
  ∃ bytes, encodeChainedRow entry.1 (followingRow start count entry.2) pageBytes = .ok bytes ∧
    HoldsRows page.image longValueOwner [bytes]

/-- The pages of a payload that starts at page `start`. -/
def GroupHolds (start : ℕ) (payload : List UInt8) (group : List PayloadPage) : Prop :=
  if (externalShape payload.length).1 = .singlePage then
    ∃ page, group = [page] ∧ HoldsRows page.image longValueOwner [payload]
  else
    List.Forall₂ (HoldsFragment start (externalShape payload.length).2)
      (chainedFragments payload).zipIdx group

/-- A file that has the planned pages. -/
def HasPages (file : PageFile) (first : ℕ) (pages : List PayloadPage) : Prop :=
  ∀ i page, pages[i]? = some page → file[first + i]? = some page.image

/-- The first payload pages of a file. -/
theorem HasPages.left {file : PageFile} {first : ℕ} {pages more : List PayloadPage}
    (h : HasPages file first (pages ++ more)) : HasPages file first pages := by
  intro i page hpage
  refine h i page ?_
  rw [List.getElem?_append_left (List.getElem?_eq_some_iff.mp hpage).1]
  exact hpage

/-- The payload pages behind the first ones. -/
theorem HasPages.right {file : PageFile} {first : ℕ} {pages more : List PayloadPage}
    (h : HasPages file first (pages ++ more)) : HasPages file (first + pages.length) more := by
  intro i page hpage
  have hget := h (pages.length + i) page (by
    rw [List.getElem?_append_right (Nat.le_add_right _ _), Nat.add_sub_cancel_left]
    exact hpage)
  rwa [← Nat.add_assoc] at hget

/-- A payload is one row of another page, or a chain of as many fragments as it needs. -/
theorem externalShape_cases (length : ℕ) :
    (length ≤ maxSinglePagePayload ∧ externalShape length = (.singlePage, 1)) ∨
      externalShape length =
        (.chained, (length + maxChainedFragment - 1) / maxChainedFragment) := by
  unfold externalShape
  split
  next h => exact .inl ⟨h, rfl⟩
  next => exact .inr rfl

theorem length_chainedFragments (payload : List UInt8) :
    (chainedFragments payload).length =
      (payload.length + maxChainedFragment - 1) / maxChainedFragment :=
  length_chunks maxChainedFragment payload

/-! ## Placing -/

namespace InitialLongValues

variable {values values' : InitialLongValues} {row column : ℕ}

/-- A pushed page holds the one row it was pushed with. -/
theorem push_ok {storage : ExternalLongValueStorage} {bytes : List UInt8}
    (h : values.push column storage bytes = .ok values') :
    ∃ page, values' = { values with pages := values.pages ++ [page] } ∧
      HoldsRows page.image longValueOwner [bytes] := by
  simp only [push, bind_ok_iff, mapError_ok_iff, Prod.exists, pure_ok_iff] at h
  obtain ⟨builder, hbuilder, next, _, happend, available, -, image, himage, rfl⟩ := h
  obtain ⟨builder', hbuilder', hempty⟩ := DataPageBuilder.newLongValue_ok
  rw [hbuilder, Except.ok.injEq] at hbuilder'
  subst hbuilder'
  obtain ⟨page, hpage, hholds, -⟩ := (hempty.appendRow happend).1.finish
  rw [himage, Except.ok.injEq] at hpage
  exact ⟨_, rfl, by subst hpage; exact hholds⟩

/-- The fragments of a chain are pushed one page each. -/
theorem pushFragments_ok {start count : ℕ} {fragments : List (List UInt8 × ℕ)}
    (h : fragments.foldlM (pushFragment row column start count) values = .ok values') :
    ∃ group, values' = { values with pages := values.pages ++ group } ∧
      List.Forall₂ (HoldsFragment start count) fragments group := by
  refine foldlM_ok_induction (fun done state => ∃ group,
    state = { values with pages := values.pages ++ group } ∧
      List.Forall₂ (HoldsFragment start count) done group) ?_ ?_ h
  · exact ⟨[], by rw [List.append_nil], .nil⟩
  · rintro done entry rest state state' - ⟨group, rfl, hgroup⟩ hstep
    simp only [pushFragment, bind_ok_iff, mapError_ok_iff] at hstep
    obtain ⟨bytes, hbytes, hpush⟩ := hstep
    obtain ⟨page, rfl, hpage⟩ := push_ok hpush
    refine ⟨group ++ [page], by simp, List.rel_append hgroup (.cons ⟨bytes, hbytes, hpage⟩ .nil)⟩

/-- The pages a payload gets, and how many. -/
theorem place_ok {payload : List UInt8} (h : values.place row column payload = .ok values') :
    ∃ group, values' = { values with pages := values.pages ++ group } ∧
      group.length = (externalShape payload.length).2 ∧
      GroupHolds (values.first + values.pages.length) payload group := by
  simp only [place, bind_ok_iff, mapError_ok_iff] at h
  obtain ⟨-, -, -, -, h⟩ := h
  rcases externalShape_cases payload.length with ⟨-, hshape⟩ | hshape
  · rw [hshape, if_pos rfl] at h
    obtain ⟨page, rfl, hpage⟩ := push_ok h
    refine ⟨[page], rfl, by rw [hshape]; rfl, ?_⟩
    rw [GroupHolds, hshape, if_pos rfl]
    exact ⟨page, rfl, hpage⟩
  · rw [hshape, if_neg (by simp)] at h
    obtain ⟨group, rfl, hgroup⟩ := pushFragments_ok h
    refine ⟨group, rfl, ?_, ?_⟩
    · rw [← hgroup.length_eq, List.length_zipIdx, length_chainedFragments, hshape]
    · rw [GroupHolds, hshape, if_neg (by simp)]
      exact hgroup

end InitialLongValues

/-! ## Reading -/

/-- The header of a payload reads the pages of its group. -/
theorem readsAs_group {file : PageFile} {source : RowLocator} {kind : LongValueKind}
    {codePage : TextCodePage} {payload header : List UInt8} {start : ℕ} {group : List PayloadPage}
    (hheader : externalLongValueHeader payload.length (externalShape payload.length).1
      { page := start, slot := 0 } = .ok header)
    (hgroup : GroupHolds start payload group) (hpages : HasPages file start group)
    (hsource : source.page < start ∨ start + group.length ≤ source.page)
    (hreadable : Readable kind codePage payload) :
    ReadsAs file source kind codePage header payload := by
  obtain ⟨hne, -, hnull, -⟩ := externalLongValueHeader_ok_iff.mp hheader
  have hstart : start ≠ 0 := by
    rintro rfl
    exact absurd hnull (by decide)
  -- a page of the group holds its row in the first slot
  have hrow : ∀ {i page bytes}, group[i]? = some page →
    HoldsRows page.image longValueOwner [bytes] →
      RowAt file { page := start + i, slot := 0 } bytes := by
    intro i page bytes hpage hholds
    exact rowAt_of_holdsRows (hpages i page hpage) (by show start + i ≠ 0; omega) hholds (by simp)
      rfl
  rcases externalShape_cases payload.length with ⟨-, hshape⟩ | hshape
  · rw [GroupHolds, hshape, if_pos rfl] at hgroup
    obtain ⟨page, rfl, hholds⟩ := hgroup
    rw [hshape] at hheader
    have hchain : Chain file .singlePage [({ page := start, slot := 0 }, payload)] :=
      .last (hrow (i := 0) rfl hholds) rfl
    refine readsAs_external hheader hchain rfl (by simp) (by simp) ?_ hreadable
    rintro entry hentry rfl
    rw [List.mem_singleton.mp hentry] at hsource
    simp at hsource
  · rw [GroupHolds, hshape, if_neg (by simp)] at hgroup
    rw [hshape] at hheader
    have hcount : (chainedFragments payload).length =
        (payload.length + maxChainedFragment - 1) / maxChainedFragment :=
      length_chainedFragments payload
    have hpositive : 0 < maxChainedFragment := by decide
    have hlength := hgroup.length_eq
    rw [List.length_zipIdx] at hlength
    let entries : List (RowLocator × List UInt8) := (chainedFragments payload).zipIdx.map
      fun entry => ({ page := start + entry.2, slot := 0 }, entry.1)
    have hget : ∀ i, entries[i]? = ((chainedFragments payload)[i]?).map
        fun fragment => (({ page := start + i, slot := 0 } : RowLocator), fragment) := by
      intro i
      simp only [entries, List.getElem?_map, List.getElem?_zipIdx, Option.map_map, Nat.zero_add]
      rfl
    have hfragments : (chainedFragments payload) ≠ [] := by
      rw [chainedFragments, chunks_of_ne_nil hpositive (by simpa using hne)]
      exact List.cons_ne_nil _ _
    have hfirst : entries.head?.map Prod.fst = some { page := start, slot := 0 } := by
      rw [List.head?_eq_getElem?, hget, ← List.head?_eq_getElem?,
        List.head?_eq_some_head hfragments]
      rfl
    have hpayload : entries.flatMap Prod.snd = payload := by
      have hmap : entries.map Prod.snd = chainedFragments payload := by
        simp only [entries, List.map_map]
        exact List.zipIdx_map_fst 0 _
      rw [List.flatMap_def, hmap]
      exact flatten_chunks hpositive payload
    have hdistinct : (entries.map Prod.fst).Nodup := by
      have hplaces : entries.map Prod.fst =
          (List.range (chainedFragments payload).length).map fun i =>
            ({ page := start + i, slot := 0 } : RowLocator) := by
        rw [List.range_eq_range', ← List.zipIdx_map_snd]
        simp only [entries, List.map_map]
        rfl
      rw [hplaces]
      refine List.Nodup.map (fun i j h => ?_) List.nodup_range
      have := congrArg RowLocator.page h
      exact Nat.add_left_cancel this
    have hchain : Chain file .chained entries := by
      refine @chain_of_rows file entries pageBytes (by simpa [entries] using hfragments) ?_
      intro i entry hentry
      rw [hget] at hentry
      obtain ⟨fragment, hfragment, rfl⟩ := Option.map_eq_some_iff.mp hentry
      obtain ⟨page, hpage, bytes, hbytes, hholds⟩ := Lookup.getElem?_of_forall₂ hgroup
        (show (chainedFragments payload).zipIdx[i]? = some (fragment, i) by
          rw [List.getElem?_zipIdx, hfragment, Option.map_some, Nat.zero_add])
      refine ⟨bytes, ?_, hrow hpage hholds⟩
      have hnext : (entries[i + 1]?).map Prod.fst = followingRow start
          ((payload.length + maxChainedFragment - 1) / maxChainedFragment) i := by
        rw [hget, Option.map_map, followingRow, ← hcount]
        split
        next hlt =>
          rw [List.getElem?_eq_getElem hlt]
          rfl
        next hlt => rw [List.getElem?_eq_none (by omega), Option.map_none]
      rw [hnext]
      exact hbytes
    refine readsAs_external hheader hchain hfirst hpayload hdistinct (fun entry hentry heq => ?_)
      hreadable
    obtain ⟨i, hi⟩ := List.mem_iff_getElem?.mp hentry
    rw [hget] at hi
    obtain ⟨fragment, hfragment, rfl⟩ := Option.map_eq_some_iff.mp hi
    have hlt := (List.getElem?_eq_some_iff.mp hfragment).1
    have hpage : @Eq ℕ (start + i) source.page := congrArg RowLocator.page heq
    have hoff : @LT.lt ℕ _ source.page start ∨ @LE.le ℕ _ (start + group.length) source.page :=
      hsource
    omega

/-! ## Both walks -/

/-- What a lowered value stands for: itself, a null, or its payload in any file that has the
pages. -/
def Stands (first : ℕ) (pages : List PayloadPage) (value lowered : RowValue) : Prop :=
  match value.longPayload with
  | none => lowered = value
  | some payload =>
    (payload = [] ∧ value.longType = .longBinary ∧ lowered = .null) ∨
      ∃ field, lowered = .longValue field ∧ ∀ file source kind codePage,
        HasPages file first pages → (source.page < first ∨ first + pages.length ≤ source.page) →
          Readable kind codePage payload → ReadsAs file source kind codePage field payload

/-- Further pages change nothing. -/
theorem Stands.append {first : ℕ} {pages : List PayloadPage} {value lowered : RowValue}
    (h : Stands first pages value lowered) (more : List PayloadPage) :
    Stands first (pages ++ more) value lowered := by
  unfold Stands at h ⊢
  cases hpayload : value.longPayload with
  | none =>
    rw [hpayload] at h
    exact h
  | some payload =>
    rw [hpayload] at h
    rcases h with hnull | ⟨field, hfield, hreads⟩
    · exact .inl hnull
    · refine .inr ⟨field, hfield, fun file source kind codePage hpages hsource => ?_⟩
      rw [List.length_append] at hsource
      exact hreads file source kind codePage hpages.left
        (hsource.imp id fun hle => (by omega : first + pages.length ≤ _).trans hle)

/-- What a row stores of a payload: the payload itself, or the locator of its first fragment. -/
theorem payloadHeader_ok {row next next' : ℕ} {payload header : List UInt8}
    (h : payloadHeader row next payload = .ok (header, next')) :
    (payload.length ≤ inlineLimit ∧ next' = next ∧
      encodeInlineLongValue payload (headerLen + inlineLimit) = .ok header) ∨
    (¬payload.length ≤ inlineLimit ∧ next' = next + (externalShape payload.length).2 ∧
      externalLongValueHeader payload.length (externalShape payload.length).1
        { page := next, slot := 0 } = .ok header) := by
  unfold payloadHeader at h
  split at h
  next hinline =>
    simp only [bind_ok_iff, mapError_ok_iff, pure_ok_iff, Prod.mk.injEq] at h
    obtain ⟨bytes, hbytes, rfl, rfl⟩ := h
    exact .inl ⟨hinline, rfl, hbytes⟩
  next hexternal =>
    simp only [advancePayload, bind_ok_iff, mapError_ok_iff, pure_ok_iff, Prod.mk.injEq] at h
    obtain ⟨bytes, hbytes, _, ⟨_, -, rfl⟩, rfl, rfl⟩ := h
    exact .inr ⟨hexternal, rfl, hbytes⟩

/-- One value of both walks: the running page number stays behind the placed pages, and the value
written stands for the one given. -/
theorem lowerValue_lockstep {columns : List ColumnOptions} {row row' ordinal column : ℕ}
    {done done' : List RowValue} {next next' : ℕ} {layout : RowColumnLayout}
    {value original : RowValue}
    {values values' : InitialLongValues} (hsame : value.longPayload = original.longPayload)
    (hnext : next = values.first + values.pages.length)
    (hlower : lowerValue columns row (done, next) ((layout, value), ordinal) = .ok (done', next'))
    (hplace : InitialLongValues.placeValue row' values (original, column) = .ok values') :
    ∃ lowered group, done' = done ++ [lowered] ∧
      values' = { values with pages := values.pages ++ group } ∧
      next' = values.first + (values.pages ++ group).length ∧
      Stands values.first (values.pages ++ group) value lowered := by
  simp only [lowerValue, bind_ok_iff, exists_unit, mapError_ok_iff] at hlower
  obtain ⟨-, hlower⟩ := hlower
  rw [InitialLongValues.placeValue, ← hsame] at hplace
  cases hpayload : value.longPayload with
  | none =>
    rw [hpayload] at hlower hplace
    simp only [pure_ok_iff, Prod.mk.injEq] at hlower
    obtain ⟨rfl, rfl⟩ := hlower
    cases hplace
    refine ⟨value, [], rfl, by rw [List.append_nil], by rw [List.append_nil]; exact hnext, ?_⟩
    rw [Stands, hpayload]
  | some payload =>
    rw [hpayload] at hlower hplace
    dsimp only at hplace
    simp only [bind_ok_iff, exists_unit, refuseIf_ok_iff] at hlower
    obtain ⟨-, hlower⟩ := hlower
    split at hlower
    next hnull =>
      -- an empty OLE value has no pages
      have hshort : payload.length ≤ inlineLimit := by rw [hnull.1]; decide
      rw [if_pos hshort] at hplace
      cases hplace
      simp only [pure_ok_iff, Prod.mk.injEq] at hlower
      obtain ⟨rfl, rfl⟩ := hlower
      refine ⟨.null, [], rfl, by rw [List.append_nil], by rw [List.append_nil]; exact hnext, ?_⟩
      rw [Stands, hpayload]
      exact .inl ⟨hnull.1, hnull.2, rfl⟩
    next =>
      simp only [bind_ok_iff, Prod.exists, pure_ok_iff, Prod.mk.injEq] at hlower
      obtain ⟨header, after, hheader, rfl, rfl⟩ := hlower
      rcases payloadHeader_ok hheader with ⟨hshort, rfl, hbytes⟩ | ⟨hlong, rfl, hbytes⟩
      · rw [if_pos hshort] at hplace
        cases hplace
        refine ⟨.longValue header, [], rfl, by rw [List.append_nil],
          by rw [List.append_nil]; exact hnext, ?_⟩
        rw [Stands, hpayload]
        exact .inr ⟨header, rfl, fun _ _ _ _ _ _ hreadable => readsAs_inline hbytes hreadable⟩
      · rw [if_neg hlong] at hplace
        obtain ⟨group, rfl, hcount, hgroup⟩ := InitialLongValues.place_ok hplace
        refine ⟨.longValue header, group, rfl, rfl, ?_, ?_⟩
        · show next + (externalShape payload.length).2 = _
          rw [List.length_append, hcount, hnext, Nat.add_assoc]
        · rw [Stands, hpayload]
          refine .inr ⟨header, rfl, fun file source kind codePage hpages hsource hreadable => ?_⟩
          rw [hnext] at hbytes
          rw [List.length_append] at hsource
          refine readsAs_group hbytes hgroup hpages.right ?_ hreadable
          exact hsource.imp (fun hlt => hlt.trans_le (Nat.le_add_right _ _))
            fun hle => by rwa [Nat.add_assoc]

theorem forall₂_zipIdx {α β : Type} {r : α → β → Prop} {l : List α} {l' : List β}
    (h : List.Forall₂ r l l') (n : ℕ) :
    List.Forall₂ (fun a b => r a.1 b.1) (l.zipIdx n) (l'.zipIdx n) := by
  induction h generalizing n with
  | nil => exact .nil
  | cons hab _ ih =>
    rw [List.zipIdx_cons, List.zipIdx_cons]
    exact .cons hab (ih (n + 1))

/-- One row of both walks. -/
theorem lowerRow_lockstep {layout : List RowColumnLayout} {columns : List ColumnOptions}
    {row original lowered : List RowValue} {n n' next next' : ℕ}
    {values values' : InitialLongValues}
    (hlength : row.length = layout.length)
    (hsame : List.Forall₂ (fun v w => RowValue.longPayload v = RowValue.longPayload w) row original)
    (hnext : next = values.first + values.pages.length)
    (hlower : lowerRow layout columns row n next = .ok (lowered, next'))
    (hplace : values.placeRow (original, n') = .ok values') :
    ∃ group, values' = { values with pages := values.pages ++ group } ∧
      next' = values.first + (values.pages ++ group).length ∧
      List.Forall₂ (Stands values.first (values.pages ++ group)) row lowered := by
  have hitems : List.Forall₂ (fun a b => RowValue.longPayload a.2 = RowValue.longPayload b)
      (layout.zip row) original := by
    have hvalues : (layout.zip row).map Prod.snd = row := List.map_snd_zip hlength.le
    rw [← hvalues, List.forall₂_map_left_iff] at hsame
    exact hsame
  -- lowering and placing go over the row together, and their counters stay equal
  obtain ⟨group, hvalues, hafter, hstands⟩ := foldlM_lockstep
    (fun done _ state values' => ∃ group,
      values' = { values with pages := values.pages ++ group } ∧
      state.2 = values.first + (values.pages ++ group).length ∧
      List.Forall₂ (Stands values.first (values.pages ++ group))
        (done.map fun entry => entry.1.2) state.1)
    (forall₂_zipIdx hitems 0)
    ⟨[], by rw [List.append_nil], by rw [List.append_nil]; exact hnext, .nil⟩
    (by
      rintro done - ⟨⟨column, value⟩, ordinal⟩ ⟨source, position⟩ ⟨written, at'⟩ ⟨written', at''⟩ _
        v' hitem ⟨group, rfl, hat, hdone⟩ hf hg
      obtain ⟨lowered, more, rfl, rfl, hat', hstands⟩ := lowerValue_lockstep hitem hat hf hg
      refine ⟨group ++ more, by simp, ?_, ?_⟩
      · rw [← List.append_assoc]
        exact hat'
      · rw [List.map_append, ← List.append_assoc]
        exact List.rel_append (hdone.imp fun _ _ h => h.append more) (.cons hstands .nil))
    hlower hplace
  refine ⟨group, hvalues, hafter, ?_⟩
  have hdone : (layout.zip row).zipIdx.map (fun entry => entry.1.2) = row := by
    have hzip := congrArg (List.map Prod.snd) (List.zipIdx_map_fst 0 (layout.zip row))
    rw [List.map_map, List.map_snd_zip hlength.le] at hzip
    exact hzip
  rwa [hdone] at hstands

end Jet3
