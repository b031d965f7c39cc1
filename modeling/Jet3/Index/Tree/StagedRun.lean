import Jet3.Index.MutationImage
import Jet3.Index.Tree.Stage

/-!
# Runs of row changes, read back

Rows of a table are inserted, replaced and removed, the indexes follow, and in the end the trees of
the changed ones are staged. Who reads an index of the file behind the plan finds the rows as they
are then: an entry for every row whose key is stored, and no other.

* `run_images` follows the entries in memory;
* `TreeOfRows` says what a tree is to say about the rows;
* `stagedRun_reads` is the statement about the file.
-/

namespace Jet3

open Outcome PageEdits RowReferenceValidator

namespace Indexes

/-- The indexes stay images of the rows throughout a run. -/
theorem run_images {indexes indexes' : Indexes} {rows : Rows} {calls : List IndexCall}
    (h : indexes.AreImages rows) (hfresh : RunsFresh rows calls)
    (hclear : RunsClear indexes rows calls)
    (hrun : calls.foldlM IndexCall.apply indexes = .ok indexes') :
    indexes'.AreImages (calls.foldl IndexCall.after rows) := by
  induction calls generalizing indexes rows with
  | nil =>
    rw [List.foldlM_nil, pure_ok_iff] at hrun
    exact hrun ▸ h
  | cons call calls ih =>
    rw [List.foldlM_cons, bind_ok_iff] at hrun
    obtain ⟨next, hcall, hrest⟩ := hrun
    obtain ⟨hschema, himages⟩ := apply_images h hfresh.1 hclear.2.clear hcall
    exact ih himages hfresh.2 (runsClear_of_sameSchema hschema hclear.2) hrest

end Indexes

/-- The tree of an index says what the rows of the table are: its records ascend, and it has an
entry for every row whose key is stored, with that key, and no other. -/
structure TreeOfRows (index : MutableIndex) (rows : Rows) (tree : IndexTree) : Prop where
  sorted : tree.entries.Pairwise fun a b => a.key.raw ++ a.row.bytes < b.key.raw ++ b.row.bytes
  mem_iff : ∀ key row, (∃ entry ∈ tree.entries, entry.key.raw = key ∧ entry.row = row) ↔
    ∃ values entry, rows row = some values ∧
      ScalarIndexEntry.encode index.fields values index.nullPolicy row = .ok (some entry) ∧
      entry.key = key

/-- The tree of an index that is an image of the rows. -/
theorem MutableIndex.IsImage.treeOfRows {index : MutableIndex} {rows : Rows}
    (h : index.IsImage rows)
    (physical : PhysicalIndexDefinition) (table : TableDefinition) (root : PageNumber)
    (nodes : List IndexNode) :
    TreeOfRows index rows
      { root, nodes, entries := index.entries.map fun entry =>
          readEntry physical table entry.key entry.locator } := by
  refine ⟨List.pairwise_map.mpr h.sorted, fun key row => ?_⟩
  constructor
  · rintro ⟨read, hread, rfl, rfl⟩
    obtain ⟨entry, hentry, rfl⟩ := List.mem_map.mp hread
    obtain ⟨values, hrow, hencode⟩ := h.exists_row hentry
    exact ⟨values, entry, hrow, MutableIndex.encode_ok_iff.mp hencode, rfl⟩
  · rintro ⟨values, entry, hrow, hencode, rfl⟩
    have hentry := (h.mem_iff entry).mpr ⟨row, values, hrow, MutableIndex.encode_ok_iff.mpr hencode⟩
    exact ⟨_, List.mem_map_of_mem hentry, rfl, (ScalarIndexEntry.encode_ok hencode).locator_eq⟩

/-- Rows change, their indexes are staged, and the tree of every index that changed is that of the
rows behind the run. -/
theorem stagedRun_reads {file : PageFile} {edits edits' : PageEdits} {indexes : Indexes}
    {rows : Rows}
    {calls : List IndexCall} {placed : List PlacedIndex} {table : TableDefinition} {fuel : ℕ}
    (himages : indexes.AreImages rows) (hfresh : Indexes.RunsFresh rows calls)
    (hclear : indexes.RunsClear rows calls)
    (hrun : calls.foldlM IndexCall.apply indexes = .ok (placed.map PlacedIndex.toMutableIndex))
    (hfirst : edits.firstAppend = file.length) (h : AllPlaceable file edits table.root placed)
    (hkind : ∀ page ∈ table.root :: placed.flatMap PlacedIndex.oldPages, ∀ raw,
      (edits.overlay file)[page]? = some raw → classifyPage page raw ≠ .data)
    (hstage : stageIndexes placed file table.root edits = .ok edits')
    (hlisted : ∀ row values, calls.foldl IndexCall.after rows row = some values →
      Listed (edits.overlay file) table.root row)
    (hfuel : (edits'.overlay file).pageCount ≤ fuel) {index : PlacedIndex} (hindex : index ∈ placed)
    (hchanged : index.changed = true)
    (hphysical : table.physicalIndexes[index.ordinal]? = some index.physical) :
    ∃ tree, indexTree (edits'.overlay file) table index.ordinal fuel = .ok (some tree) ∧
      TreeOfRows index.toMutableIndex (calls.foldl IndexCall.after rows) tree := by
  have himage : index.IsImage (calls.foldl IndexCall.after rows) :=
    Indexes.run_images himages hfresh hclear hrun _ (List.mem_map_of_mem hindex)
  obtain ⟨hextends, htrees⟩ := stageIndexes_ok hfirst h hstage
  have hrows : RowsListed (edits.overlay file) table.root index := by
    intro entry hentry
    obtain ⟨values, hrow, hencode⟩ := himage.exists_row hentry
    have hpage := (ScalarIndexEntry.encode_ok (MutableIndex.encode_ok_iff.mp hencode)).page_le
    exact ⟨hlisted _ _ hrow, Nat.lt_succ_of_le hpage⟩
  obtain ⟨nodes, hread⟩ :=
    reads_staged hextends (htrees index hindex hchanged) hkind hfuel hphysical hrows
  exact ⟨_, hread, himage.treeOfRows _ _ _ nodes⟩

/-! ## A run over three rows -/

/-- Three rows are stored, one is renumbered and another removed. -/
def stagingCalls : List IndexCall :=
  [.insert { page := 2, slot := 0 } [.long 5], .insert { page := 2, slot := 1 } [.long 7],
    .insert { page := 2, slot := 2 } [.long 6], .replace { page := 2, slot := 0 } [.long 9] none,
    .remove { page := 2, slot := 1 }]

/-- The index on the pages of the first index of the table. -/
def stagingPlace (index : MutableIndex) : PlacedIndex :=
  { index with ordinal := 0, physical := firstPhysical, mapped := [4, 5, 6] }

/-- The index can be placed in the file. -/
theorem allPlaceable_stagingPlace (index : MutableIndex) :
    AllPlaceable stagingFile (.new 11) 9 [stagingPlace index] ∧
      ∀ page ∈ 9 :: [stagingPlace index].flatMap PlacedIndex.oldPages,
        page ∈ ([9, 6, 4, 5, 6, 8, 7, 8] : List ℕ) := by
  have hin : ∀ page ∈ ([9, 6, 4, 5, 6] : List ℕ), page ∈ ([9, 6, 4, 5, 6, 8, 7, 8] : List ℕ) := by
    decide
  have hold : ∀ page ∈ (stagingPlace index).oldPages, page ≠ 0 ∧ page < stagingFile.length ∧ _ :=
    fun page hpage => staging_pages.1 page (hin page (List.mem_cons_of_mem _ hpage))
  have hmapped : ([4, 5, 6] : List ℕ).Nodup := by decide
  have hmap : firstPhysical.usageMap ≠ globalLocator := by decide
  have hplace : Placeable stagingFile (.new 11) (stagingPlace index) :=
    ⟨hmapped, fun page hpage => (hold page hpage).1, fun page hpage => (hold page hpage).2.1,
      fun _ _ => rfl, hmap⟩
  have hout : (9 : ℕ) ∉ ([6, 4, 5, 6] : List ℕ) := by decide
  exact ⟨⟨List.forall_mem_singleton.mpr hplace, List.pairwise_singleton _ _, by decide,
    List.forall_mem_singleton.mpr hout⟩, hin⟩

/-- The rows behind the calls: the one renumbered, and the last one inserted. -/
theorem rows_staging {row : RowLocator} {values : List RowValue} :
    stagingCalls.foldl IndexCall.after (fun _ => none) row = some values ↔
      row = { page := 2, slot := 0 } ∧ values = [.long 9] ∨
        row = { page := 2, slot := 2 } ∧ values = [.long 6] := by
  simp only [stagingCalls, List.foldl_cons, List.foldl_nil, IndexCall.after, Function.update_apply]
  by_cases hfirst : row = { page := 2, slot := 0 }
  · subst hfirst
    simp [eq_comm]
  by_cases hlast : row = { page := 2, slot := 2 }
  · subst hlast
    simp [eq_comm]
  by_cases hremoved : row = { page := 2, slot := 1 } <;> simp [hfirst, hlast, hremoved]

/-- The index that was built is read back, with an entry of each of the two rows. -/
theorem stagedRun_reads_staging : ∃ index edits' tree,
    stagingCalls.foldlM IndexCall.apply [Indexes.longIndex] = .ok [index] ∧
      stageIndexes [stagingPlace index] stagingFile 9 (.new 11) = .ok edits' ∧
      indexTree (edits'.overlay stagingFile) stagingTable 0 11 = .ok (some tree) ∧
      TreeOfRows index (stagingCalls.foldl IndexCall.after fun _ => none) tree ∧
      ∀ row, (∃ entry ∈ tree.entries, entry.row = row) ↔
        row = { page := 2, slot := 0 } ∨ row = { page := 2, slot := 2 } := by
  obtain ⟨indexes, hrun, hstaged⟩ := exists_ok_and
    (x := stagingCalls.foldlM IndexCall.apply [Indexes.longIndex])
    (p := fun indexes => decide (indexes.length = 1) && indexes.all fun index =>
      index.changed && decide (index.fields = Indexes.longIndex.fields ∧ index.nullPolicy =
        .include) &&
        (stageIndexes [stagingPlace index] stagingFile 9 (.new 11)).toOption.any fun edits :
        PageEdits =>
          decide (edits.appended.length = 0)) (by decide +kernel)
  rw [Bool.and_eq_true, decide_eq_true_eq, List.length_eq_one_iff] at hstaged
  obtain ⟨⟨index, rfl⟩, hstaged⟩ := hstaged
  simp only [List.all_cons, List.all_nil, Bool.and_true, Bool.and_eq_true, decide_eq_true_eq]
    at hstaged
  obtain ⟨⟨hchanged, hfields, hpolicy⟩, hstaged⟩ := hstaged
  obtain ⟨edits', hstage, happended⟩ := exists_ok_and hstaged
  have hclear : ∀ rows, ∀ index ∈ [Indexes.longIndex], index.Clear rows := by
    simpa using Indexes.clear_longIndex
  have hlisted : ∀ row values, stagingCalls.foldl IndexCall.after (fun _ => none) row =
    some values →
      Listed ((PageEdits.new 11).overlay stagingFile) 9 row := by
    intro row values hrow
    obtain ⟨rfl, -⟩ | ⟨rfl, -⟩ := rows_staging.mp hrow
    · exact staging_pages.2 0 (by decide)
    · exact staging_pages.2 2 (by decide)
  obtain ⟨hplaceable, hpages⟩ := allPlaceable_stagingPlace index
  obtain ⟨tree, hread, htree⟩ := @stagedRun_reads stagingFile (.new 11) edits' [Indexes.longIndex]
    (fun _ => none) stagingCalls [stagingPlace index] stagingTable 11
    (Indexes.areImages_of_no_entries (by simp [Indexes.longIndex]))
    (by simp [stagingCalls, Indexes.RunsFresh, IndexCall.Fresh, IndexCall.after])
    ⟨hclear _, hclear _, hclear _, hclear _, hclear _, hclear _⟩ hrun rfl
    hplaceable (fun page hpage => (staging_pages.1 page (hpages page hpage)).2.2) hstage hlisted (by
      have hnone : edits'.appended.length = 0 := of_decide_eq_true happended
      show (edits'.overlay stagingFile).length ≤ 11
      rw [length_overlay, hnone]
      decide) (stagingPlace index) List.mem_cons_self hchanged rfl
  refine ⟨index, edits', tree, hrun, hstage, hread, htree, fun row => ⟨?_, fun hrow => ?_⟩⟩
  · rintro ⟨entry, hentry, rfl⟩
    obtain ⟨values, -, hrow, -⟩ := (htree.mem_iff _ _).mp ⟨entry, hentry, rfl, rfl⟩
    exact (rows_staging.mp hrow).imp And.left And.left
  · -- both numbers have a key
    obtain ⟨values, hvalues, hencoded⟩ : ∃ values,
        stagingCalls.foldl IndexCall.after (fun _ => none) row = some values ∧
          (ScalarIndexEntry.encode index.fields values index.nullPolicy
            row).toOption.join.isSome := by
      rw [hfields, hpolicy]
      rcases hrow with rfl | rfl
      · exact ⟨_, rows_staging.mpr (.inl ⟨rfl, rfl⟩), by decide +kernel⟩
      · exact ⟨_, rows_staging.mpr (.inr ⟨rfl, rfl⟩), by decide +kernel⟩
    obtain ⟨entry, hentry⟩ := exists_ok_some hencoded
    obtain ⟨read, hread, -, hsame⟩ := (htree.mem_iff _ _).mpr ⟨values, entry, hvalues, hentry, rfl⟩
    exact ⟨read, hread, hsame⟩

end Jet3
