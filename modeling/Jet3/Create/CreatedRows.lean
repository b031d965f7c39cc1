import Jet3.Create.RowPlacement

/-!
# Rows of a created table

A file that has the pages of a plan has every row of the table: where the indexes were told, with
the payloads of its Memo and OLE values behind the descriptors, and with the number the table
definition accounts for.

* `withRows_reads` is the statement about the file;
* `withRows_numbers` is about the numbers of an AutoNumber column;
* `withRows_indexes` is about the entries of the indexes.
-/

namespace Jet3

open Outcome LongValue

/-! ## Reading rows -/

/-- The file has this row of the table at this place. -/
def StoredAt (file : PageFile) (root : PageNumber) (locator : RowLocator) (bytes : List UInt8) :
    Prop :=
  ∃ page directory range, file[locator.page]? = some page ∧
    RowDirectory.validate locator.page root page = .ok directory ∧
    directory.entry page locator.slot = .ok { locator, range, overflow := false, hidden := false } ∧
    page.slice range.start range.stop = bytes

/-- A built page is accepted as a page of its table. -/
theorem rowsValid_of_holdsRows {page : Page} {root : PageNumber} {rows : List (List UInt8)}
    (h : HoldsRows page (leBytes 4 root) rows) (hroot : root < 2 ^ 32)
    (hcount : rows.length ≤ 256) :
    RowsValid root page := by
  refine ⟨?_, by rw [h.count_eq]; exact hcount, fun row hrow => ?_, fun row hrow hoverflow => ?_⟩
  · rw [RowDirectory.ownerWord, h.owner_eq]
    exact leValue_leBytes_of_lt hroot
  · rw [h.count_eq] at hrow ⊢
    exact h.entryValid hrow
  · rw [h.count_eq] at hrow
    rw [h.rowOverflow_eq hrow] at hoverflow
    cases hoverflow

/-- A row of a built page is stored at its slot. -/
theorem storedAt_of_holdsRows {file : PageFile} {page : Page} {root : PageNumber}
    {rows : List (List UInt8)} {locator : RowLocator} {row : List UInt8}
    (hpage : file[locator.page]? = some page) (h : HoldsRows page (leBytes 4 root) rows)
    (hroot : root < 2 ^ 32) (hcount : rows.length ≤ 256)
    (hrow : rows[locator.slot.toNat]? = some row) : StoredAt file root locator row := by
  have hslot : locator.slot.toNat < rows.length := (List.getElem?_eq_some_iff.mp hrow).1
  refine ⟨page, pageDirectory locator.page page,
    { start := rowStart page locator.slot.toNat, stop := rowStop page locator.slot.toNat }, hpage,
    RowDirectory.validate_ok_iff.mpr ⟨rowsValid_of_holdsRows h hroot hcount, rfl⟩, ?_, ?_⟩
  · rw [RowDirectory.entry_ok_iff, h.count_eq, pageEntry, h.rowOverflow_eq hslot,
      h.rowHidden_eq hslot]
    exact ⟨hslot, rfl⟩
  · show page.slice (rowStart page _) (rowStop page _) = row
    rw [h.rowStart_eq hslot, h.rowStop_eq hslot]
    exact h.row_eq _ row hrow

/-- What a lowered value of a row at `source` reads back as: itself, or the payload behind its
descriptor. -/
def ReadsBack (file : PageFile) (source : RowLocator) (value lowered : RowValue) : Prop :=
  match value.longPayload with
  | none => lowered = value
  | some payload =>
    (payload = [] ∧ value.longType = .longBinary ∧ lowered = .null) ∨
      ∃ field, lowered = .longValue field ∧ ∀ kind codePage, Readable kind codePage payload →
        ReadsAs file source kind codePage field payload

/-- A lowered value stands for the value it was lowered from, on every file with the payload
pages. -/
theorem Stands.readsBack {file : PageFile} {first : ℕ} {pages : List PayloadPage}
    {source : RowLocator}
    {value lowered : RowValue} (h : Stands first pages value lowered)
    (hpages : HasPages file first pages)
    (hsource : source.page < first ∨ first + pages.length ≤ source.page) :
    ReadsBack file source value lowered := by
  unfold Stands at h
  unfold ReadsBack
  cases hpayload : value.longPayload with
  | none =>
    rw [hpayload] at h
    exact h
  | some payload =>
    rw [hpayload] at h
    rcases h with hnull | ⟨field, hfield, hreads⟩
    · exact .inl hnull
    · exact .inr ⟨field, hfield, fun kind codePage =>
        hreads file source kind codePage hpages hsource⟩

/-- What an index is told of a placed row. -/
def PlacedRow.keyed (row : PlacedRow) : List RowValue × RowLocator :=
  (row.values, row.locator)

/-! ## Created rows -/

namespace InitialRows

/-- The page behind the payload pages. -/
def dataStart (planned : InitialRows) (table : InitialTable) : ℕ :=
  table.payloadStart + planned.payloadPages.length

/-- The file has the pages of the plan. -/
structure InFile (planned : InitialRows) (table : InitialTable) (file : PageFile) : Prop where
  payloads : HasPages file table.payloadStart planned.payloadPages
  data : ∀ i page, planned.data[i]? = some page → file[planned.dataStart table + i]? =
    some page.image

end InitialRows

namespace InitialTable

variable {table : InitialTable} {rows : List (List RowValue)} {planned : InitialRows}

/-- A table without rows gets no pages, one with rows a plan. -/
theorem withRows_ok (h : table.withRows rows = .ok planned) :
    ∃ generated, InitialAutoIncrement.new table.columns rows = .ok generated ∧
      ((rows = [] ∧
          planned = { longValues := none, data := [], rowCount := 0, indexes := table.indexes
                      autoIncrement := generated, nextPayload := table.payloadStart
                      numbered := generated, placed := [] }) ∨
        ∃ layout minimum first final last,
          Plans table rows generated planned layout minimum first final last) := by
  simp only [withRows, bind_ok_iff] at h
  obtain ⟨generated, hgenerated, h⟩ := h
  refine ⟨generated, hgenerated, ?_⟩
  split at h
  next hrows =>
    simp only [pure_ok_iff] at h
    exact .inl ⟨hrows, h.symm⟩
  next => exact .inr (composeRows_ok h)

/-- Every row of a created table is in its file, at a place of its own, and reads back: its bytes
are those of its lowered values, and these stand for the values given. -/
theorem withRows_reads {file : PageFile} (h : table.withRows rows = .ok planned)
    (hfile : planned.InFile table file) :
    (planned.placed.map PlacedRow.locator).Nodup ∧
      List.Forall₂ (fun given row =>
        StoredAt file table.root row.locator row.bytes ∧
        (∃ layout, initialRowLayout table.columns = .ok layout ∧ PayloadsTyped layout row.values ∧
          encodeRow layout row.lowered pageBytes = .ok row.bytes) ∧
        List.Forall₂ (ReadsBack file row.locator) row.values row.lowered ∧
        KeepsOthers (planned.autoIncrement.map InitialAutoIncrement.column) given row.values)
      rows planned.placed := by
  obtain ⟨generated, -, ⟨rfl, rfl⟩ | ⟨layout, minimum, first, final, last, hplans⟩⟩ := withRows_ok h
  · exact ⟨List.nodup_nil, .nil⟩
  obtain ⟨pages, hpages, hentries, hslots⟩ := hplans.packed
  obtain ⟨values, hfirst, hvalues, hcomposes⟩ := hplans.composes
  have hroot := (DataPageBuilder.new_ok_iff.mp hplans.first_eq).1
  have hlocators : planned.placed.map PlacedRow.locator =
      (entriesFrom (planned.dataStart table) pages).map Prod.fst := by
    rw [InitialRows.dataStart, ← hentries, List.map_map]
    rfl
  refine ⟨by rw [hlocators]; exact nodup_entriesFrom hslots, ?_⟩
  -- where each placed row is
  have hplace : ∀ row ∈ planned.placed, StoredAt file table.root row.locator row.bytes ∧
      planned.dataStart table ≤ row.locator.page := by
    intro row hrow
    have hmem : (row.locator, row.bytes) ∈ entriesFrom (planned.dataStart table) pages := by
      rw [InitialRows.dataStart, ← hentries]
      exact List.mem_map_of_mem hrow
    obtain ⟨i, j, page, hpage, hj, hlocator⟩ := mem_entriesFrom hmem
    obtain ⟨image, himage, hholds⟩ := Lookup.getElem?_of_forall₂ hpages.flip hpage
    have hcount : page.length ≤ 255 := hslots page (List.mem_of_getElem? hpage)
    have hlt := (List.getElem?_eq_some_iff.mp hj).1
    have hslot : (UInt8.ofNat j).toNat = j := by
      rw [UInt8.toNat_ofNat']
      omega
    rw [hlocator]
    refine ⟨?_, Nat.le_add_right _ _⟩
    refine storedAt_of_holdsRows (hfile.data i image himage) hholds hroot (by omega) ?_
    rw [hslot]
    exact hj
  rw [hplans.generated_eq]
  have hrows := hcomposes.rows.flip
  rw [← hplans.placed_eq] at hrows
  refine ((List.forall₂_and_left planned.placed rows).mpr ⟨fun _ hrow => hrow, hrows⟩).flip.imp ?_
  rintro given row ⟨hmem, hkeeps, htyped, hbytes, hstands⟩
  obtain ⟨hstored, hpage⟩ := hplace row hmem
  refine ⟨hstored, ⟨layout, hplans.layout_eq, htyped, hbytes⟩,
    hstands.imp fun value lowered hvalue => ?_, hkeeps⟩
  rw [hfirst, hvalues] at hvalue
  exact hvalue.readsBack hfile.payloads (.inr hpage)

/-! ## Numbers -/

/-- The numbers of a new table come from one run over all rows. -/
theorem new_ok {columns : List InitialColumn} {generated : InitialAutoIncrement}
    (h : InitialAutoIncrement.new columns rows = .ok (some generated)) :
    InitialAutoIncrement.finalStateOf generated.column rows = .ok generated.finalState ∧
      generated.current = .initial ∧ generated.nextRow = 0 := by
  unfold InitialAutoIncrement.new at h
  split at h
  next => cases h
  next =>
    simp only [bind_ok_iff, pure_ok_iff, Option.some.injEq] at h
    obtain ⟨final, hfinal, rfl⟩ := h
    exact ⟨hfinal, rfl, rfl⟩
  next => cases h

/-- The rows ask for these numbers. -/
def Requests (column : ℕ) (rows : List (List RowValue)) (numbers : List (Option Int32)) : Prop :=
  List.Forall₂ (fun row number => InitialAutoIncrement.explicit row[column]? = .ok number) rows
    numbers

/-- The given rows with these numbers. -/
def withNumbers (column : ℕ) (rows : List (List RowValue)) (numbers : List Int32) :
    List (List RowValue) :=
  List.zipWith (fun row number => row.set column (.long number)) rows numbers

/-- The numbers of the rows so far, in the state the rows are numbered with and in the state the
table definition gets. -/
structure Numbering (generated : InitialAutoIncrement) (done : List (List RowValue))
    (counted : AutoNumberState) (state : RowsState) (numbers : List (Option Int32)) : Prop where
  requests : Requests generated.column done numbers
  counted_eq : counted = (AutoNumberState.initial.run numbers).1
  state_eq : state.generated = some { generated with current := counted, nextRow := done.length }
  values_eq : state.placed.map PlacedRow.values =
    withNumbers generated.column done (AutoNumberState.initial.run numbers).2

/-- One row of both passes. -/
theorem Numbering.rowStep {generated : InitialAutoIncrement} {done : List (List RowValue)}
    {counted : AutoNumberState} {state next : RowsState} {numbers : List (Option Int32)}
    {layout : List RowColumnLayout} {minimum : List UInt8} {dataStart ordinal : ℕ}
    {given : List RowValue} {number : Option Int32}
    (hnumbering : Numbering generated done counted state numbers)
    (hnumber : InitialAutoIncrement.explicit given[generated.column]? = .ok number)
    (h : table.rowStep layout minimum dataStart state (given, ordinal) = .ok next) :
    Numbering generated (done ++ [given]) (counted.allocate number).1 next
      (numbers ++ [number]) := by
  obtain ⟨row, slot, hrow, -, -, -, -, hplaced⟩ := rowStep_ok h
  rw [hnumbering.state_eq] at hrow
  simp only [numberRow, bind_ok_iff, Prod.exists, pure_ok_iff, Prod.mk.injEq] at hrow
  obtain ⟨after, values, hlower, hafter, hvalues⟩ := hrow
  obtain ⟨number', hnumber', rfl, rfl⟩ := InitialAutoIncrement.lower_ok hlower
  rw [hnumber, Except.ok.injEq] at hnumber'
  subst hnumber'
  have hlength := hnumbering.requests.length_eq
  refine ⟨List.rel_append hnumbering.requests (.cons hnumber .nil), ?_, ?_, ?_⟩
  · rw [AutoNumberState.run_append, ← hnumbering.counted_eq]
    rfl
  · rw [← hafter, List.length_append]
    rfl
  · rw [hplaced, List.map_append, hnumbering.values_eq, AutoNumberState.run_append,
      ← hnumbering.counted_eq, withNumbers, withNumbers,
      List.zipWith_append (by rw [AutoNumberState.length_run, hlength])]
    show _ ++ [row.values] = _ ++ [_]
    rw [← hvalues]

/-- The counter of a page in which it was written. -/
theorem matchesRoot_write (generated : InitialAutoIncrement) (root : Page) :
    generated.matchesRoot (generated.write root) = true :=
  decide_eq_true (AutoNumberState.decode_writeBytes _ _)

/-- The rows of a table with an AutoNumber column get the numbers of one run from the initial state.
The root page of the table definition gets the state behind it, and keeps its other bytes. -/
theorem withRows_numbers (h : table.withRows rows = .ok planned) :
    (planned.autoIncrement = none → planned.placed.map PlacedRow.values = rows) ∧
      ∀ generated, planned.autoIncrement = some generated → ∃ numbers,
        Requests generated.column rows numbers ∧
        planned.placed.map PlacedRow.values =
          withNumbers generated.column rows (AutoNumberState.initial.run numbers).2 ∧
        generated.finalState = (AutoNumberState.initial.run numbers).1 ∧
        planned.numbered.map InitialAutoIncrement.current = some generated.finalState ∧
        ∀ root, generated.matchesRoot (generated.write root) = true ∧
          AutoNumberState.decode (pageBytesOf (generated.write root)) =
            .ok (AutoNumberState.initial.run numbers).1 ∧
          ∀ i, i < AutoNumberState.offset ∨ AutoNumberState.offset + 4 ≤ i →
            (generated.write root).get i = root.get i := by
  have hroot : ∀ generated : InitialAutoIncrement, ∀ {state : AutoNumberState},
      generated.finalState = state → ∀ root, generated.matchesRoot (generated.write root) = true ∧
        AutoNumberState.decode (pageBytesOf (generated.write root)) = .ok state ∧
        ∀ i, i < AutoNumberState.offset ∨ AutoNumberState.offset + 4 ≤ i →
          (generated.write root).get i = root.get i := by
    rintro generated state rfl root
    exact ⟨matchesRoot_write generated root, AutoNumberState.decode_writeBytes _ root,
      fun i => AutoNumberState.get_writeBytes _ root⟩
  obtain ⟨generated, hgenerated, ⟨rfl, rfl⟩ | ⟨layout, minimum, first, final, last, hplans⟩⟩ :=
    withRows_ok h
  · refine ⟨fun _ => rfl, ?_⟩
    rintro generated rfl
    obtain ⟨hfinal, hcurrent, -⟩ := new_ok hgenerated
    simp only [InitialAutoIncrement.finalStateOf, List.foldlM_nil, pure_ok_iff] at hfinal
    refine ⟨[], .nil, rfl, hfinal.symm, ?_, hroot _ hfinal.symm⟩
    rw [Option.map_some, hcurrent, hfinal]
  rw [hplans.generated_eq, hplans.placed_eq, hplans.numbered_eq]
  refine ⟨?_, ?_⟩
  · rintro rfl
    -- no row is numbered
    have hloop := foldlM_ok_induction (fun done state => state.generated = none ∧
        state.placed.map PlacedRow.values = done.map Prod.fst) ⟨rfl, rfl⟩
      (by
        rintro done ⟨given, ordinal⟩ rest state state' - ⟨hnone, hvalues⟩ hstep
        obtain ⟨row, slot, hrow, -, -, -, -, hplaced⟩ := rowStep_ok hstep
        rw [hnone, numberRow, Except.ok.injEq, Prod.mk.injEq] at hrow
        refine ⟨hrow.1.symm, ?_⟩
        rw [hplaced, List.map_append, hvalues, List.map_append, List.map_singleton, ← hrow.2]
        rfl) hplans.loop
    rw [hloop.2, List.zipIdx_map_fst]
  · rintro generated rfl
    obtain ⟨hfinal, hcurrent, hnext⟩ := new_ok hgenerated
    have hitems : List.Forall₂ (fun row entry => row = Prod.fst entry) rows rows.zipIdx := by
      rw [← List.forall₂_map_right_iff, List.zipIdx_map_fst]
      exact List.forall₂_same.mpr fun _ _ => rfl
    have hstart : some generated = some { generated with current := .initial, nextRow := 0 } := by
      rw [← hcurrent, ← hnext]
    obtain ⟨numbers, hnumbers⟩ := foldlM_lockstep (fun done _ counted state =>
        ∃ numbers, Numbering generated done counted state numbers) hitems
      ⟨[], .nil, rfl, hstart, rfl⟩
      (by
        rintro done done' given _ counted counted' state state' rfl ⟨numbers, hnumbers⟩ hcount hstep
        simp only [bind_ok_iff, pure_ok_iff] at hcount
        obtain ⟨number, hnumber, rfl⟩ := hcount
        exact ⟨numbers ++ [number], hnumbers.rowStep hnumber hstep⟩) hfinal hplans.loop
    refine ⟨numbers, hnumbers.requests, hnumbers.values_eq, hnumbers.counted_eq, ?_,
      hroot _ hnumbers.counted_eq⟩
    rw [hnumbers.state_eq]
    rfl

/-! ## Indexes -/

/-- The entries of an index so far. -/
def Pushed (placed : List PlacedRow) (index index' : InitialScalarIndex) : Prop :=
  (placed.map PlacedRow.keyed).foldlM InitialScalarIndex.push index = .ok index'

theorem forall₂_trans {α : Type} {r s t : α → α → Prop} (h : ∀ a b c, r a b → s b c → t a c)
    {l l' l'' : List α} (hleft : List.Forall₂ r l l') (hright : List.Forall₂ s l' l'') :
    List.Forall₂ t l l'' := by
  induction hleft generalizing l'' with
  | nil =>
    cases hright
    exact .nil
  | cons hab _ ih =>
    cases hright with
    | cons hbc hrest => exact .cons (h _ _ _ hab hbc) (ih hrest)

/-- Every index takes the place of the next row. -/
theorem pushed_rowStep {layout : List RowColumnLayout} {minimum : List UInt8}
    {dataStart ordinal : ℕ}
    {given : List RowValue} {state next : RowsState}
    (hpushed : List.Forall₂ (Pushed state.placed) table.indexes state.indexes)
    (h : table.rowStep layout minimum dataStart state (given, ordinal) = .ok next) :
    List.Forall₂ (Pushed next.placed) table.indexes next.indexes ∧
      next.placed.length = state.placed.length + 1 := by
  obtain ⟨row, slot, -, -, -, -, hpush, hplaced⟩ := rowStep_ok h
  refine ⟨forall₂_trans (fun index index' index'' hindex hpush => ?_) hpushed
    hpush, by simp [hplaced]⟩
  rw [Pushed, hplaced, List.map_append, List.foldlM_append, bind_ok_iff]
  exact ⟨index', hindex, by simp [PlacedRow.keyed, hpush]⟩

/-- Every index of a created table is the one built from all rows and their places, and in the file
of the table each row is at the place the indexes were given. -/
theorem withRows_indexes (h : table.withRows rows = .ok planned)
    (hnew : ∀ index ∈ table.indexes, InitialScalarIndex.forIndex index.fields index.unique
      index.nullPolicy rows.length = .ok index) :
    List.Forall₂ (fun index index' => InitialScalarIndex.build index.fields index.unique
        index.nullPolicy (planned.placed.map PlacedRow.keyed) = .ok index')
      table.indexes planned.indexes ∧
    ∀ file, planned.InFile table file → (planned.placed.map PlacedRow.locator).Nodup ∧
      List.Forall₂ (fun given row => StoredAt file table.root row.locator row.bytes ∧
          KeepsOthers (planned.autoIncrement.map InitialAutoIncrement.column) given row.values)
        rows planned.placed := by
  refine ⟨?_, fun file hfile => ?_⟩
  swap
  · obtain ⟨hnodup, hrows⟩ := withRows_reads h hfile
    exact ⟨hnodup, hrows.imp fun given row hrow => ⟨hrow.1, hrow.2.2.2⟩⟩
  obtain ⟨generated, -, ⟨rfl, rfl⟩ | ⟨layout, minimum, first, final, last, hplans⟩⟩ := withRows_ok h
  · refine List.forall₂_same.mpr fun index hindex => ?_
    have hindex' := hnew index hindex
    simp only [InitialScalarIndex.build, bind_ok_iff]
    refine ⟨index, hindex', index, rfl, ?_⟩
    -- an index without entries is sorted
    simp only [InitialScalarIndex.forIndex, bind_ok_iff, exists_unit, pure_ok_iff] at hindex'
    obtain ⟨-, -, heq⟩ := hindex'
    rw [← heq]
    rfl
  have hpushed : List.Forall₂ (Pushed planned.placed) table.indexes final.indexes ∧
      planned.placed.length = rows.length := by
    have hstart : List.Forall₂ (Pushed []) table.indexes table.indexes :=
      List.forall₂_same.mpr fun _ _ => rfl
    have hloop := foldlM_ok_induction (fun done state =>
        List.Forall₂ (Pushed state.placed) table.indexes state.indexes ∧
          state.placed.length = done.length) ⟨hstart, rfl⟩
      (by
        rintro done ⟨given, ordinal⟩ rest state state' - ⟨hindexes, hlength⟩ hstep
        obtain ⟨hpushed, hcount⟩ := pushed_rowStep hindexes hstep
        exact ⟨hpushed, by rw [hcount, hlength, List.length_append, List.length_singleton]⟩)
          hplans.loop
    rw [List.length_zipIdx] at hloop
    rwa [hplans.placed_eq]
  obtain ⟨hindexes, hlength⟩ := hpushed
  have hbuilt := forall₂_trans (t := fun index index' => InitialScalarIndex.forIndex index.fields
      index.unique index.nullPolicy rows.length = .ok index →
      InitialScalarIndex.build index.fields index.unique index.nullPolicy
        (planned.placed.map PlacedRow.keyed) = .ok index')
    (fun index pushed index' hpushed hsort hindex => by
      simp only [InitialScalarIndex.build, bind_ok_iff, List.length_map, hlength]
      exact ⟨index, hindex, pushed, hpushed, hsort⟩) hindexes hplans.sorted
  refine ((List.forall₂_and_left _ _).mpr ⟨hnew, hbuilt⟩).imp ?_
  rintro index index' ⟨hindex, hbuild⟩
  exact hbuild hindex

/-! ## A table of notes -/

/-- A number and a Memo text. -/
def notes : InitialTable :=
  { root := 5
    appendedPages := 1
    columns :=
      [ { spec := { name := [78], columnType := .autoIncrement }, required := true
          allowZeroLength := false, validationRule := false },
        { spec := { name := [84], columnType := .memo }, required := false
          allowZeroLength := false, validationRule := false } ]
    rule := false
    indexes :=
      [ { fields := [{ column := 0, direction := .ascending, kind := .long }], unique := true
          nullPolicy := .required, entries := [], nextRow := 0, distinct := 0 } ] }

/-- A text in the row, one on a page, and one on two pages. -/
def noteRows : List (List RowValue) :=
  [ [.autoIncrement, .memo [65]], [.long 7, .memo (List.replicate 40 66)],
    [.autoIncrement, .memo (List.replicate 2100 67)] ]

/-- There is a file with the pages of any plan. -/
theorem exists_inFile (table : InitialTable) (planned : InitialRows) :
    ∃ file, planned.InFile table file := by
  let before : PageFile := List.replicate table.payloadStart (PageKind.newImage .data)
  have hbefore : before.length = table.payloadStart := List.length_replicate
  refine ⟨before ++ (planned.payloadPages.map PayloadPage.image ++
    planned.data.map InitialDataPage.image), ?_, ?_⟩
  · intro i page hpage
    have hlt := (List.getElem?_eq_some_iff.mp hpage).1
    rw [List.getElem?_append_right (by omega), hbefore, Nat.add_sub_cancel_left,
      List.getElem?_append_left (by rwa [List.length_map]), List.getElem?_map, hpage,
      Option.map_some]
  · intro i page hpage
    rw [InitialRows.dataStart, List.getElem?_append_right (by omega),
      List.getElem?_append_right (by rw [List.length_map]; omega), hbefore, List.length_map,
      Nat.add_assoc, Nat.add_sub_cancel_left, Nat.add_sub_cancel_left, List.getElem?_map, hpage,
      Option.map_some]

/-- The three rows and their payloads are planned. -/
theorem withRows_notes : ∃ planned, notes.withRows noteRows = .ok planned ∧
    (planned.placed.length = 3 ∧ planned.payloadPages.length = 3 ∧
      planned.autoIncrement.isSome = true) := by
  obtain ⟨planned, hplanned, hcounts⟩ := exists_ok_and (x := notes.withRows noteRows)
    (p := fun planned => planned.placed.length = 3 ∧ planned.payloadPages.length = 3 ∧
      planned.autoIncrement.isSome = true) (by decide +kernel)
  exact ⟨planned, hplanned, by simpa using hcounts⟩

/-- The notes are numbered in one run. -/
theorem withRows_numbers_notes : ∃ planned, notes.withRows noteRows = .ok planned ∧
    ∃ generated numbers, planned.autoIncrement = some generated ∧
      Requests generated.column noteRows numbers ∧
        AutoNumberState.decode
          (pageBytesOf (generated.write (PageKind.newImage .tableDefinition))) =
          .ok (AutoNumberState.initial.run numbers).1 := by
  obtain ⟨planned, hplanned, -, -, hgenerated⟩ := withRows_notes
  obtain ⟨generated, hgenerated⟩ := Option.isSome_iff_exists.mp hgenerated
  obtain ⟨numbers, hnumbers, -, -, -, hroot⟩ := (withRows_numbers hplanned).2 generated hgenerated
  exact ⟨planned, hplanned, generated, numbers, hgenerated, hnumbers, (hroot _).2.1⟩

/-- The index of the notes has an entry of each row at the place where its bytes are. -/
theorem withRows_indexes_notes : ∃ planned file, notes.withRows noteRows = .ok planned ∧
    planned.placed.length = 3 ∧
    List.Forall₂ (fun index index' => InitialScalarIndex.build index.fields index.unique
        index.nullPolicy (planned.placed.map PlacedRow.keyed) = .ok index')
      notes.indexes planned.indexes ∧
    ∀ row ∈ planned.placed, StoredAt file notes.root row.locator row.bytes := by
  obtain ⟨planned, hplanned, hcount, -⟩ := withRows_notes
  obtain ⟨file, hfile⟩ := exists_inFile notes planned
  have hnew : ∀ index ∈ notes.indexes, InitialScalarIndex.forIndex index.fields index.unique
      index.nullPolicy noteRows.length = .ok index := by
    intro index hindex
    rw [List.mem_singleton.mp hindex]
    rfl
  obtain ⟨hbuilt, hstored⟩ := withRows_indexes hplanned hnew
  refine ⟨planned, file, hplanned, hcount, hbuilt, fun row hrow => ?_⟩
  obtain ⟨i, hi⟩ := List.mem_iff_getElem?.mp hrow
  obtain ⟨given, -, hstored, -⟩ := Lookup.getElem?_of_forall₂ (hstored file hfile).2.flip hi
  exact hstored

end InitialTable

end Jet3
