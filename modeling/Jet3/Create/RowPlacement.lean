import Jet3.Create.InitialRows

/-!
# Rows of a new table in its file

The loop over the rows keeps three things in step: the rows on the data pages and the places given
to the indexes, the payload pages and the descriptors, and the two passes that number the rows.

* `rowStep_ok` is what one row does to the state of the loop;
* `Packed` says that the pages hold the placed rows in order, and `Packed.rowStep` keeps it;
* `Composes` is the invariant of the loop beside the plan of the payload pages.
-/

namespace Jet3

open Outcome LongValue

/-- A loop whose iterations leave the state alone leaves it alone. -/
theorem foldlM_fixed {σ α ε : Type} {f : σ → α → Except ε σ} {l : List α} {s : σ}
    (h : ∀ a ∈ l, f s a = .ok s) : l.foldlM f s = .ok s := by
  induction l with
  | nil => rfl
  | cons a l ih =>
    rw [List.foldlM_cons, h a List.mem_cons_self]
    exact ih fun b hb => h b (List.mem_cons_of_mem a hb)

/-! ## Places -/

/-- The rows of one page with their places. -/
def pageEntries (page : ℕ) (rows : List (List UInt8)) : List (RowLocator × List UInt8) :=
  rows.zipIdx.map fun entry => ({ page, slot := UInt8.ofNat entry.2 }, entry.1)

/-- The rows of consecutive pages with their places. -/
def entriesFrom (start : ℕ) : List (List (List UInt8)) → List (RowLocator × List UInt8)
  | [] => []
  | rows :: pages => pageEntries start rows ++ entriesFrom (start + 1) pages

/-- A row that is added to a page gets the next slot. -/
theorem pageEntries_snoc (page : ℕ) (rows : List (List UInt8)) (row : List UInt8) :
    pageEntries page (rows ++ [row]) =
      pageEntries page rows ++ [({ page, slot := UInt8.ofNat rows.length }, row)] := by
  simp [pageEntries, List.zipIdx_append]

/-- A page that is added gets the next number. -/
theorem entriesFrom_snoc (start : ℕ) (pages : List (List (List UInt8))) (rows : List (List UInt8)) :
    entriesFrom start (pages ++ [rows]) =
      entriesFrom start pages ++ pageEntries (start + pages.length) rows := by
  induction pages generalizing start with
  | nil => simp [entriesFrom]
  | cons first pages ih =>
    rw [List.cons_append, entriesFrom, entriesFrom, ih, List.append_assoc, List.length_cons,
      Nat.add_assoc, Nat.add_comm 1]

/-- A place of consecutive pages is the place of its row on one of them. -/
theorem mem_entriesFrom {start : ℕ} {pages : List (List (List UInt8))} {locator : RowLocator}
    {bytes : List UInt8} (h : (locator, bytes) ∈ entriesFrom start pages) :
    ∃ i j rows, pages[i]? = some rows ∧ rows[j]? = some bytes ∧
      locator = { page := start + i, slot := UInt8.ofNat j } := by
  induction pages generalizing start with
  | nil => cases h
  | cons first pages ih =>
    rcases List.mem_append.mp h with hfirst | hrest
    · obtain ⟨⟨row, j⟩, hrow, heq⟩ := List.mem_map.mp hfirst
      obtain ⟨rfl, rfl⟩ := Prod.mk.inj heq
      exact ⟨0, j, first, rfl, List.mem_zipIdx_iff_getElem?.mp hrow, rfl⟩
    · obtain ⟨i, j, rows, hrows, hrow, rfl⟩ := ih hrest
      refine ⟨i + 1, j, rows, hrows, hrow, ?_⟩
      show RowLocator.mk (start + 1 + i) _ = RowLocator.mk (start + (i + 1)) _
      rw [Nat.add_assoc, Nat.add_comm 1]

/-- The rows of a page are at its number. -/
theorem page_of_mem_pageEntries {page : ℕ} {rows : List (List UInt8)}
    {entry : RowLocator × List UInt8} (h : entry ∈ pageEntries page rows) :
    entry.1.page = page := by
  obtain ⟨_, _, rfl⟩ := List.mem_map.mp h
  rfl

/-- No two rows have one place. -/
theorem nodup_entriesFrom {start : ℕ} {pages : List (List (List UInt8))}
    (hslots : ∀ rows ∈ pages, rows.length ≤ maxBuiltRows) :
    ((entriesFrom start pages).map Prod.fst).Nodup := by
  induction pages generalizing start with
  | nil => exact List.nodup_nil
  | cons first pages ih =>
    obtain ⟨hfirst, hrest⟩ := List.forall_mem_cons.mp hslots
    have hmax : maxBuiltRows = 255 := rfl
    rw [entriesFrom, List.map_append]
    refine List.Nodup.append ?_ (ih hrest) ?_
    · -- the slots of one page are its row numbers
      have hslot : (pageEntries start first).map Prod.fst =
          (List.range first.length).map fun j =>
            ({ page := start, slot := UInt8.ofNat j } : RowLocator) := by
        rw [List.range_eq_range', ← List.zipIdx_map_snd, pageEntries, List.map_map, List.map_map]
        rfl
      rw [hslot]
      refine List.Nodup.map_on ?_ List.nodup_range
      intro i hi j hj heq
      have hi' := List.mem_range.mp hi
      have hj' := List.mem_range.mp hj
      have hsame := congrArg (fun locator => UInt8.toNat (RowLocator.slot locator)) heq
      simp only [UInt8.toNat_ofNat'] at hsame
      omega
    · -- later pages have larger numbers
      intro locator hleft hright
      obtain ⟨entry, hentry, rfl⟩ := List.mem_map.mp hleft
      obtain ⟨⟨_, bytes⟩, hother, heq⟩ := List.mem_map.mp hright
      obtain ⟨i, _, _, _, _, hlocator⟩ := mem_entriesFrom hother
      have hpage : @Eq ℕ entry.1.page start := page_of_mem_pageEntries hentry
      have hlater : @Eq ℕ entry.1.page (start + 1 + i) := by
        rw [← heq]
        show RowLocator.page _ = _
        rw [hlocator]
      omega

/-! ## One row -/

/-- The data page a plan holds these rows on. -/
def InitialDataPage.Holds (root : PageNumber) (page : InitialDataPage) (rows : List (List UInt8)) :
    Prop :=
  HoldsRows page.image (leBytes 4 root) rows

/-- The place and the bytes of a placed row. -/
def PlacedRow.entry (row : PlacedRow) : RowLocator × List UInt8 :=
  (row.locator, row.bytes)

namespace InitialTable

variable {table : InitialTable} {layout : List RowColumnLayout} {minimum : List UInt8}
  {dataStart : ℕ}
  {state next : RowsState}

/-- A finished page is added with its free space. -/
theorem pushInitialPage_ok {data data' : List InitialDataPage} {builder : DataPageBuilder}
    (h : pushInitialPage dataStart minimum data builder = .ok data') :
    ∃ page, finishDataBuilder builder = .ok page.image ∧ data' = data ++ [page] := by
  simp only [pushInitialPage, bind_ok_iff, mapError_ok_iff, pure_ok_iff] at h
  obtain ⟨-, -, _, -, _, himage, rfl⟩ := h
  exact ⟨_, himage, rfl⟩

/-- A row goes behind those of the current page, or first on a page behind it. -/
theorem appendInitialRow_ok {bytes : List UInt8} {data : List InitialDataPage}
    {builder : DataPageBuilder} {slot : UInt8}
    (h : table.appendInitialRow dataStart minimum state bytes = .ok (data, builder, slot)) :
    (data = state.data ∧ state.builder.appendRow bytes = .ok (builder, slot)) ∨
      ∃ page fresh, data = state.data ++ [page] ∧ finishDataBuilder state.builder = .ok page.image ∧
        DataPageBuilder.new table.root = .ok fresh ∧ fresh.appendRow bytes =
          .ok (builder, slot) := by
  unfold appendInitialRow at h
  split at h
  next builder' slot' happend =>
    cases h
    exact .inl ⟨rfl, happend⟩
  next error _ =>
    split at h
    next =>
      simp only [bind_ok_iff, Prod.exists, mapError_ok_iff, pure_ok_iff, Prod.mk.injEq] at h
      obtain ⟨_, hpush, fresh, hfresh, _, _, happend, rfl, rfl, rfl⟩ := h
      obtain ⟨page, himage, rfl⟩ := pushInitialPage_ok hpush
      exact .inr ⟨page, fresh, rfl, himage, hfresh, happend⟩
    next => cases h

/-- What one row does: it is numbered, its payloads are lowered, its bytes are appended, and every
index takes its place. -/
theorem rowStep_ok {given : List RowValue} {ordinal : ℕ}
    (h : table.rowStep layout minimum dataStart state (given, ordinal) = .ok next) :
    ∃ row slot, numberRow state.generated given ordinal = .ok (next.generated, row.values) ∧
      encodeInitialRow layout (table.columns.map InitialColumn.options) row.values ordinal
        state.nextPayload pageBytes = .ok ((row.bytes, row.lowered), next.nextPayload) ∧
      table.appendInitialRow dataStart minimum state row.bytes =
        .ok (next.data, next.builder, slot) ∧
      row.locator = { page := dataStart + next.data.length, slot } ∧
      List.Forall₂ (fun index index' => index.push (row.values, row.locator) = .ok index')
        state.indexes next.indexes ∧
      next.placed = state.placed ++ [row] := by
  simp only [rowStep, bind_ok_iff, Prod.exists, pure_ok_iff] at h
  obtain ⟨generated, values, hnumber, bytes, lowered, nextPayload, hencode, data, builder, slot,
    happend, indexes, hindexes, rfl⟩ := h
  refine ⟨{ values, lowered, bytes, locator := { page := dataStart + data.length, slot } }, slot,
    hnumber, hencode, happend, rfl, ?_, rfl⟩
  exact (forall₂_of_mapM_ok hindexes).imp fun _ _ hpush => mapError_ok_iff.mp hpush

/-! ## Pages -/

/-- The finished pages and the current one hold the placed rows in order. -/
structure Packed (table : InitialTable) (dataStart : ℕ) (state : RowsState)
    (pages : List (List (List UInt8))) (current : List (List UInt8)) : Prop where
  finished : List.Forall₂ (InitialDataPage.Holds table.root) state.data pages
  builds : state.builder.Builds (leBytes 4 table.root) current
  entries : state.placed.map PlacedRow.entry = entriesFrom dataStart (pages ++ [current])
  slots : ∀ rows ∈ pages ++ [current], rows.length ≤ maxBuiltRows

/-- A row keeps the pages packed. -/
theorem Packed.rowStep {pages : List (List (List UInt8))} {current : List (List UInt8)}
    {given : List RowValue} {ordinal : ℕ} (hpacked : table.Packed dataStart state pages current)
    (h : table.rowStep layout minimum dataStart state (given, ordinal) = .ok next) :
    ∃ pages' current', table.Packed dataStart next pages' current' := by
  obtain ⟨row, slot, -, -, happend, hlocator, -, hplaced⟩ := rowStep_ok h
  have hcount := hpacked.finished.length_eq
  have hentries := hpacked.entries
  rcases appendInitialRow_ok happend with ⟨hdata, happend⟩ |
    ⟨page, fresh, hdata, himage, hfresh, happend⟩
  · obtain ⟨hbuilds, hslot, hroom⟩ := hpacked.builds.appendRow happend
    refine ⟨pages, current ++ [row.bytes], ⟨by rw [hdata]; exact hpacked.finished, hbuilds, ?_, ?_⟩⟩
    · rw [hplaced, List.map_append, hentries, entriesFrom_snoc, entriesFrom_snoc, pageEntries_snoc,
        List.append_assoc, ← hslot, ← hcount, ← hdata]
      simp [PlacedRow.entry, hlocator]
    · intro rows hrows
      rcases List.mem_append.mp hrows with hold | hnew
      · exact hpacked.slots rows (List.mem_append_left _ hold)
      · rw [List.mem_singleton.mp hnew, List.length_append]
        exact hroom
  · -- the current page is finished, and the row is the first of the next
    obtain ⟨image, himage', hholds, -⟩ := hpacked.builds.finish
    rw [himage, Except.ok.injEq] at himage'
    obtain ⟨hbuilds, hslot, hroom⟩ := (DataPageBuilder.builds_new hfresh).appendRow happend
    refine ⟨pages ++ [current], [row.bytes], ⟨?_, hbuilds, ?_, ?_⟩⟩
    · rw [hdata]
      refine List.rel_append hpacked.finished (.cons ?_ .nil)
      rw [InitialDataPage.Holds, himage']
      exact hholds
    · rw [hplaced, List.map_append, hentries, entriesFrom_snoc dataStart _ [row.bytes],
        List.length_append, ← hcount]
      simp [PlacedRow.entry, hlocator, pageEntries, hdata, hslot]
    · intro rows hrows
      rcases List.mem_append.mp hrows with hold | hnew
      · exact hpacked.slots rows hold
      · rw [List.mem_singleton.mp hnew]
        exact hroom

end InitialTable

/-! ## Numbers -/

/-- A column of numbers is given a number, or asks for one. -/
theorem InitialAutoIncrement.explicit_ok_iff {value : Option RowValue} {number : Option Int32} :
    explicit value = .ok number ↔
      (value = some .autoIncrement ∧ number = none) ∨
        ∃ given, value = some (.long given) ∧ number = some given := by
  unfold explicit
  split <;> simp_all [eq_comm]

/-- What numbering a row does to the state of the numbers and to the row. -/
theorem InitialAutoIncrement.lower_ok {generated next : InitialAutoIncrement}
    {given values : List RowValue}
    {ordinal : ℕ} (h : generated.lower given ordinal = .ok (next, values)) :
    ∃ number, explicit given[generated.column]? = .ok number ∧
      next = { generated with current := (generated.current.allocate number).1
                              nextRow := generated.nextRow + 1 } ∧
      values = given.set generated.column (.long (generated.current.allocate number).2) := by
  simp only [lower, bind_ok_iff, exists_unit, pure_ok_iff, Prod.mk.injEq] at h
  obtain ⟨-, number, hnumber, rfl, rfl⟩ := h
  exact ⟨number, hnumber, rfl, rfl⟩

theorem forall₂_set {α : Type} {r : α → α → Prop} (hrefl : ∀ a, r a a) {l : List α} {i : ℕ} {a : α}
    (h : ∀ b, l[i]? = some b → r a b) : List.Forall₂ r (l.set i a) l := by
  induction l generalizing i with
  | nil => exact .nil
  | cons b l ih =>
    cases i with
    | zero => exact .cons (h b rfl) (List.forall₂_same.mpr fun c _ => hrefl c)
    | succ i => exact .cons (hrefl b) (ih fun c hc => h c hc)

namespace InitialTable

variable {table : InitialTable} {layout : List RowColumnLayout} {minimum : List UInt8}
  {dataStart : ℕ}
  {state next : RowsState}

/-- A number takes the place of no payload. -/
theorem numberRow_longPayload {generated generated' : Option InitialAutoIncrement}
    {given values : List RowValue} {ordinal : ℕ}
    (h : numberRow generated given ordinal = .ok (generated', values)) :
    List.Forall₂ (fun v w => RowValue.longPayload v = RowValue.longPayload w) values given := by
  cases generated with
  | none =>
    cases h
    exact List.forall₂_same.mpr fun _ _ => rfl
  | some generated =>
    simp only [numberRow, bind_ok_iff, Prod.exists, pure_ok_iff, Prod.mk.injEq] at h
    obtain ⟨_, _, hlower, -, rfl⟩ := h
    obtain ⟨number, hnumber, -, rfl⟩ := InitialAutoIncrement.lower_ok hlower
    refine @forall₂_set _ (fun v w => RowValue.longPayload v = RowValue.longPayload w)
      (fun _ => rfl) _ _ _ fun value hvalue => ?_
    rw [hvalue, InitialAutoIncrement.explicit_ok_iff] at hnumber
    rcases hnumber with ⟨hvalue, -⟩ | ⟨number, hvalue, -⟩
    · rw [Option.some.inj hvalue]
      rfl
    · rw [Option.some.inj hvalue]
      rfl

/-- The values of a numbered row are the given ones but for the number. -/
def KeepsOthers (column : Option ℕ) (given values : List RowValue) : Prop :=
  ∀ i, column ≠ some i → values[i]? = given[i]?

/-- Only the column of numbers is changed. -/
theorem numberRow_keeps {generated generated' : Option InitialAutoIncrement}
    {given values : List RowValue} {ordinal : ℕ}
    (h : numberRow generated given ordinal = .ok (generated', values)) :
    KeepsOthers (generated.map InitialAutoIncrement.column) given values ∧
      generated'.map InitialAutoIncrement.column = generated.map InitialAutoIncrement.column := by
  cases generated with
  | none =>
    cases h
    exact ⟨fun _ _ => rfl, rfl⟩
  | some generated =>
    simp only [numberRow, bind_ok_iff, Prod.exists, pure_ok_iff, Prod.mk.injEq] at h
    obtain ⟨_, _, hlower, rfl, rfl⟩ := h
    obtain ⟨number, -, rfl, rfl⟩ := InitialAutoIncrement.lower_ok hlower
    refine ⟨fun i hi => List.getElem?_set_ne fun heq => hi ?_, rfl⟩
    rw [← heq]
    rfl

/-! ## Payloads -/

/-- A row is encoded with one value for each column. -/
theorem length_eq_of_encodeRow {values : List RowValue} {available : ℕ} {bytes : List UInt8}
    (h : encodeRow layout values available = .ok bytes) :
    values.length = layout.length ∧ values.length ≤ 255 := by
  simp only [encodeRow, rowShape, bind_ok_iff, exists_unit, refuseIf_ok_iff] at h
  obtain ⟨_, ⟨hcount, hsame, -⟩, -⟩ := h
  have hmax : rowMaxColumnCount = 255 := rfl
  omega

/-- An encoded row was lowered, whatever its length. -/
theorem encodeInitialRow_ok {options : List ColumnOptions} {values lowered : List RowValue}
    {row nextPayload after available : ℕ} {bytes : List UInt8}
    (h : encodeInitialRow layout options values row nextPayload available =
      .ok ((bytes, lowered), after)) :
    values.length = layout.length ∧
      lowerRow layout options values row nextPayload = .ok (lowered, after) ∧
      encodeRow layout lowered available = .ok bytes := by
  unfold encodeInitialRow at h
  split at h
  next hlength =>
    simp only [bind_ok_iff, mapError_ok_iff, pure_ok_iff, Prod.mk.injEq] at h
    obtain ⟨_, hencode, -⟩ := h
    have hsame := length_eq_of_encodeRow hencode
    omega
  next hlength =>
    simp only [bind_ok_iff, exists_unit, refuseIf_ok_iff, Prod.exists, mapError_ok_iff, pure_ok_iff,
      Prod.mk.injEq] at h
    obtain ⟨-, lowered', after', hlower, bytes', hencode, ⟨rfl, rfl⟩, rfl⟩ := h
    exact ⟨by omega, hlower, hencode⟩

/-- Every payload is in a column of its type. -/
def PayloadsTyped (layout : List RowColumnLayout) (values : List RowValue) : Prop :=
  ∀ (i : ℕ) (column : RowColumnLayout) (value : RowValue), layout[i]? = some column →
    values[i]? = some value → value.longPayload ≠ none → column.physicalType = value.longType

/-- Payloads are given to columns of their type. -/
theorem payloadsTyped_of_lowerRow {options : List ColumnOptions} {values lowered : List RowValue}
    {row nextPayload after : ℕ} (h : lowerRow layout options values row nextPayload =
      .ok (lowered, after)) :
    PayloadsTyped layout values := by
  have hall : ∀ entry ∈ (layout.zip values).zipIdx, entry.1.2.longPayload ≠ none →
      entry.1.1.physicalType = entry.1.2.longType := by
    refine foldlM_ok_induction (fun done _ => ∀ entry ∈ done, entry.1.2.longPayload ≠ none →
      entry.1.1.physicalType = entry.1.2.longType) (by simp) ?_ h
    rintro done ⟨⟨layout, value⟩, ordinal⟩ rest state state' - hdone hstep entry hentry hne
    rcases List.mem_append.mp hentry with hold | hnew
    · exact hdone entry hold hne
    · rw [List.mem_singleton.mp hnew] at hne ⊢
      simp only [lowerValue, bind_ok_iff, exists_unit] at hstep
      obtain ⟨-, hstep⟩ := hstep
      cases hvalue : value.longPayload with
      | none => exact absurd hvalue hne
      | some payload =>
        rw [hvalue] at hstep
        simp only [bind_ok_iff, exists_unit, refuseIf_ok_iff, not_not] at hstep
        exact hstep.1
  intro i column value hcolumn hvalue hpayload
  refine hall ((column, value), i) (List.mem_zipIdx_iff_getElem?.mpr ?_) hpayload
  exact List.getElem?_zip_eq_some.mpr ⟨hcolumn, hvalue⟩

/-- The row layout has the types of the columns. -/
theorem physicalType_initialRowLayout {columns : List InitialColumn}
    (h : initialRowLayout columns = .ok layout) :
    layout.map RowColumnLayout.physicalType = columns.map fun column =>
      column.spec.physicalType := by
  simp only [initialRowLayout, bind_ok_iff, pure_ok_iff] at h
  obtain ⟨final, hfinal, rfl⟩ := h
  have hall := foldlM_ok_induction (fun done state =>
    state.1.map RowColumnLayout.physicalType = done.map fun entry => entry.1.spec.physicalType)
    rfl (by
      rintro done ⟨column, ordinal⟩ rest state state' - hdone hstep
      simp only [layoutStep, bind_ok_iff, Prod.exists, pure_ok_iff] at hstep
      obtain ⟨_, _, -, rfl⟩ := hstep
      rw [List.map_append, List.map_append, hdone]
      rfl) hfinal
  have hcolumns := congrArg (List.map fun column : InitialColumn => column.spec.physicalType)
    (List.zipIdx_map_fst 0 columns)
  rw [List.map_map] at hcolumns
  exact hall.trans hcolumns

/-- What the loop over the rows is, beside the plan of the payload pages. -/
structure Composes (layout : List RowColumnLayout) (column : Option ℕ) (done : List (List RowValue))
    (values : InitialLongValues) (state : RowsState) : Prop where
  column_eq : state.generated.map InitialAutoIncrement.column = column
  next_eq : state.nextPayload = values.first + values.pages.length
  rows : List.Forall₂ (fun given row => KeepsOthers column given row.values ∧
    PayloadsTyped layout row.values ∧ encodeRow layout row.lowered pageBytes = .ok row.bytes ∧
      List.Forall₂ (Stands values.first values.pages) row.values row.lowered) done state.placed

/-- One row of the loop and of the plan. -/
theorem Composes.rowStep {column : Option ℕ} {done : List (List RowValue)} {given : List RowValue}
    {values values' : InitialLongValues} {ordinal ordinal' : ℕ}
    (hcomposes : Composes layout column done values state)
    (h : table.rowStep layout minimum dataStart state (given, ordinal) = .ok next)
    (hplace : values.placeRow (given, ordinal') = .ok values') :
    values'.first = values.first ∧ Composes layout column (done ++ [given]) values' next := by
  obtain ⟨row, slot, hnumber, hencode, -, -, -, hplaced⟩ := rowStep_ok h
  obtain ⟨hlength, hlower, hbytes⟩ := encodeInitialRow_ok hencode
  have hsame := numberRow_longPayload hnumber
  obtain ⟨group, rfl, hnext, hstands⟩ :=
    lowerRow_lockstep hlength hsame hcomposes.next_eq hlower hplace
  obtain ⟨hkeeps, hcolumn⟩ := numberRow_keeps hnumber
  rw [hcomposes.column_eq] at hkeeps hcolumn
  refine ⟨rfl, hcolumn, hnext, ?_⟩
  rw [hplaced]
  refine List.rel_append (hcomposes.rows.imp ?_)
    (.cons ⟨hkeeps, payloadsTyped_of_lowerRow hlower, hbytes, hstands⟩ .nil)
  rintro given row ⟨hkeeps, htyped, hbytes, hstands⟩
  exact ⟨hkeeps, htyped, hbytes, hstands.imp fun _ _ h => h.append group⟩

/-! ## All rows -/

variable {rows : List (List RowValue)} {generated : Option InitialAutoIncrement}

/-- The steps of a whole plan. -/
structure Plans (table : InitialTable) (rows : List (List RowValue))
    (generated : Option InitialAutoIncrement) (planned : InitialRows)
    (layout : List RowColumnLayout)
    (minimum : List UInt8) (first : DataPageBuilder) (final : RowsState) (last : InitialDataPage) :
    Prop where
  layout_eq : initialRowLayout table.columns = .ok layout
  payloads : table.payloadsOf rows = .ok planned.longValues
  first_eq : DataPageBuilder.new table.root = .ok first
  loop : rows.zipIdx.foldlM
    (table.rowStep layout minimum (table.payloadStart + planned.payloadPages.length))
    { generated, nextPayload := table.payloadStart, builder := first, data := []
      indexes := table.indexes, placed := [] } = .ok final
  sorted : List.Forall₂ (fun index index' => InitialScalarIndex.sort index = .ok index')
    final.indexes planned.indexes
  last_eq : finishDataBuilder final.builder = .ok last.image
  data_eq : planned.data = final.data ++ [last]
  next_eq : planned.nextPayload = final.nextPayload
  numbered_eq : planned.numbered = final.generated
  generated_eq : planned.autoIncrement = generated
  placed_eq : planned.placed = final.placed

/-- A plan of all rows comes from a layout, a shortest row and one run over the rows. -/
theorem composeRows_ok {planned : InitialRows}
    (h : table.composeRows rows generated = .ok planned) :
    ∃ layout minimum first final last,
      Plans table rows generated planned layout minimum first final last := by
  simp only [composeRows, bind_ok_iff, exists_unit, mapError_ok_iff, pure_ok_iff] at h
  obtain ⟨-, -, layout, hlayout, longValues, hpayloads, minimum, -, first, hfirst, final, hloop,
    indexes, hindexes, data, hdata, rfl⟩ := h
  obtain ⟨last, hlast, rfl⟩ := pushInitialPage_ok hdata
  refine ⟨layout, minimum, first, final, last, ?_⟩
  have hlength : ((longValues.map fun values => values.pages.length).getD 0) =
      ((longValues.map InitialLongValues.pages).getD []).length := by
    cases longValues <;> rfl
  rw [hlength] at hloop
  exact
    { layout_eq := hlayout
      payloads := hpayloads
      first_eq := hfirst
      loop := hloop
      sorted := (forall₂_of_mapM_ok hindexes).imp fun _ _ hsort => mapError_ok_iff.mp hsort
      last_eq := hlast
      data_eq := rfl
      next_eq := rfl
      numbered_eq := rfl
      generated_eq := rfl
      placed_eq := rfl }

/-- Without Memo and OLE columns no row has a payload. -/
theorem placeRows_of_countP {state state' : RowsState}
    (hlayout : initialRowLayout table.columns = .ok layout)
    (hcount : table.longValueCount = 0)
    (h : rows.zipIdx.foldlM (table.rowStep layout minimum dataStart) state = .ok state')
    (values : InitialLongValues) :
    rows.zipIdx.foldlM InitialLongValues.placeRow values = .ok values := by
  have hnone : ∀ row ∈ rows.zipIdx, ∀ value ∈ row.1, value.longPayload = none := by
    refine foldlM_ok_induction (fun done _ => ∀ row ∈ done, ∀ value ∈ Prod.fst row,
      value.longPayload = none) (by simp) ?_ h
    rintro done ⟨given, ordinal⟩ rest state state' - hdone hstep row hrow
    rcases List.mem_append.mp hrow with hold | hnew
    · exact hdone row hold
    · rw [List.mem_singleton.mp hnew]
      obtain ⟨placed, slot, hnumber, hencode, -⟩ := rowStep_ok hstep
      obtain ⟨hlength, hlower, -⟩ := encodeInitialRow_ok hencode
      have hsame := numberRow_longPayload hnumber
      intro value hvalue
      obtain ⟨i, hi⟩ := List.mem_iff_getElem?.mp hvalue
      obtain ⟨value', hvalue', heq⟩ := Lookup.getElem?_of_forall₂ hsame.flip hi
      have hlt : i < layout.length := by
        rw [← hlength]
        exact (List.getElem?_eq_some_iff.mp hvalue').1
      -- a payload would be in a column of a long type
      by_contra hpayload
      have hlong := payloadsTyped_of_lowerRow hlower i layout[i] value'
        (List.getElem?_eq_getElem hlt)
        hvalue' (by rw [heq]; exact hpayload)
      have htypes := physicalType_initialRowLayout hlayout
      have hcolumn : layout[i].physicalType ∈ table.columns.map fun column =>
        column.spec.physicalType := by
        rw [← htypes]
        exact List.mem_map_of_mem (List.getElem_mem hlt)
      obtain ⟨column, hcolumn, htype⟩ := List.mem_map.mp hcolumn
      refine absurd (List.countP_eq_zero.mp hcount column hcolumn) (not_not.mpr ?_)
      rw [htype, hlong]
      cases value' <;> rfl
  refine foldlM_fixed fun row hrow => foldlM_fixed fun entry hentry => ?_
  rw [InitialLongValues.placeValue, hnone row hrow entry.1 (List.fst_mem_of_mem_zipIdx hentry)]

/-- The plan of the payload pages, also where none is made. -/
theorem placeRows_of_payloadsOf {state state' : RowsState} {longValues : Option InitialLongValues}
    (hlayout : initialRowLayout table.columns = .ok layout)
    (hpayloads : table.payloadsOf rows = .ok longValues)
    (h : rows.zipIdx.foldlM (table.rowStep layout minimum dataStart) state = .ok state') :
    ∃ values, rows.zipIdx.foldlM InitialLongValues.placeRow
        { first := table.payloadStart, pages := [] } = .ok values ∧
      (longValues.map InitialLongValues.pages).getD [] = values.pages := by
  unfold payloadsOf at hpayloads
  split at hpayloads
  next =>
    simp only [bind_ok_iff, pure_ok_iff] at hpayloads
    obtain ⟨values, hvalues, rfl⟩ := hpayloads
    exact ⟨values, hvalues, rfl⟩
  next hcount =>
    cases hpayloads
    exact ⟨_, placeRows_of_countP hlayout (not_not.mp hcount) h _, rfl⟩

variable {first : DataPageBuilder} {final : RowsState} {last : InitialDataPage}
  {planned : InitialRows}

/-- All pages of a plan hold the placed rows in order. -/
theorem Plans.packed (h : Plans table rows generated planned layout minimum first final last) :
    ∃ pages, List.Forall₂ (InitialDataPage.Holds table.root) planned.data pages ∧
      planned.placed.map PlacedRow.entry =
        entriesFrom (table.payloadStart + planned.payloadPages.length) pages ∧
      ∀ page ∈ pages, page.length ≤ maxBuiltRows := by
  have hfinal := foldlM_ok_induction (fun _ state => ∃ pages current,
    table.Packed (table.payloadStart + planned.payloadPages.length) state pages current)
    ⟨[], [], ⟨.nil, DataPageBuilder.builds_new h.first_eq, rfl, by simp⟩⟩
    (by
      rintro done ⟨given, ordinal⟩ rest state state' - ⟨pages, current, hpacked⟩ hstep
      exact hpacked.rowStep hstep) h.loop
  obtain ⟨pages, current, hpacked⟩ := hfinal
  obtain ⟨image, himage, hholds, -⟩ := hpacked.builds.finish
  rw [h.last_eq, Except.ok.injEq] at himage
  refine ⟨pages ++ [current], ?_, by rw [h.placed_eq]; exact hpacked.entries, hpacked.slots⟩
  rw [h.data_eq]
  refine List.rel_append hpacked.finished (.cons ?_ .nil)
  rw [InitialDataPage.Holds, himage]
  exact hholds

/-- Every placed row encodes the lowered values of its row. -/
theorem Plans.composes (h : Plans table rows generated planned layout minimum first final last) :
    ∃ values, values.first = table.payloadStart ∧ values.pages = planned.payloadPages ∧
      Composes layout (generated.map InitialAutoIncrement.column) rows values final := by
  obtain ⟨values, hplaced, hpages⟩ := placeRows_of_payloadsOf h.layout_eq h.payloads h.loop
  have hitems : List.Forall₂ (fun a b => a = b) rows.zipIdx rows.zipIdx :=
    List.forall₂_same.mpr fun _ _ => rfl
  obtain ⟨hfirst, hcomposes⟩ := foldlM_lockstep (fun done _ state values =>
      values.first = table.payloadStart ∧ Composes layout
        (generated.map InitialAutoIncrement.column) (done.map Prod.fst) values state)
    hitems ⟨rfl, ⟨rfl, rfl, .nil⟩⟩
    (by
      rintro done - ⟨given, ordinal⟩ _ state state' values values' rfl ⟨hfirst, hcomposes⟩ hstep
        hplace
      obtain ⟨hsame, hnext⟩ := hcomposes.rowStep hstep hplace
      refine ⟨hsame.trans hfirst, ?_⟩
      rw [List.map_append]
      exact hnext) h.loop hplaced
  rw [List.zipIdx_map_fst] at hcomposes
  exact ⟨values, hfirst, hpages.symm, hcomposes⟩

end InitialTable

end Jet3
