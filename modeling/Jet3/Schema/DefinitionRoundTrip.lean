import Jet3.Create.DefinitionPages
import Jet3.Definition.TableWriter
import Jet3.Schema.DefinitionStaging

/-!
# Definition chains are edited without loss

* `definitionChains_lossless` puts the parts together: an unchanged edit is encoded as the bytes it
  was split from, and staged and composed pages are read back as the definition they were written
  from;
* `stageBytes_relinks` shows a chain that gives up a page: its root gets another link than the
  staged bytes had.
-/

namespace Jet3

/-- The last page of a chain that holds a definition links to none. -/
theorem HoldPieces.last_link {file : PageFile} {pages : List PageNumber} {bytes : List UInt8}
    (h : HoldPieces file pages bytes) :
    ∀ page ∈ pages.getLast?, ∃ image, file[page]? = some image ∧ nextPage image = 0 := by
  intro page hpage
  rw [List.getLast?_eq_getElem?] at hpage
  obtain ⟨image, himage, hpiece⟩ := h _ page hpage
  refine ⟨image, himage, hpiece.next_eq.trans ?_⟩
  rw [List.getElem?_eq_none (by omega)]
  rfl

/-- A chain that was read is reproduced by an unchanged edit. A definition staged over the pages of
a chain is read back from every file that takes the staged pages over, and so is a composed one;
only the prefix and the link of the root are those of the chain. -/
theorem definitionChains_lossless :
    (∀ (file : PageFile) (root : PageNumber) (table : TableDefinition),
      tableDefinition file root = .ok table →
        ∃ bytes maps, readDefinitionChain file root = .ok (bytes, maps, table.pages) ∧
          (DefinitionEdit.new table).encode = .ok bytes) ∧
    (∀ (file file' : PageFile) (edits edits' : PageEdits) (originalPages : List PageNumber)
        (bytes : List UInt8), edits.firstAppend = file.length →
      Stageable file edits originalPages →
      stageBytes file originalPages bytes edits = .ok edits' →
      (∀ page ∈ stagedPages file edits originalPages bytes.length,
        file'[page]? = (edits'.overlay file)[page]?) →
      DefinitionBytes file'.pageCount bytes →
        ∃ root rest, stagedPages file edits originalPages bytes.length = root :: rest ∧
          originalPages.head? = some root ∧ (root :: rest).Nodup ∧
          readDefinitionChain file' root =
            .ok (linkedBytes bytes (rest.headD 0), definitionMaps bytes, root :: rest) ∧
          (∀ page ∈ (root :: rest).getLast?,
            ∃ image, file'[page]? = some image ∧ nextPage image = 0) ∧
          (∀ page ∈ root :: rest, page ∉ originalPages →
            edits'.requested globalLocator page = some false) ∧
          (∀ page ∈ originalPages, page ∉ root :: rest →
            edits'.requested globalLocator page = some true)) ∧
    (∀ (file : PageFile) (root first length : ℕ) (bytes : List UInt8), bytes.length = length →
      bytes.take 4 = definitionPrefix →
      Composed file ((DefinitionPages.new length).fill bytes) root first → root ≠ 0 → first ≠ 0 →
      root ∉ List.range' first (continuationCount length) → DefinitionBytes file.pageCount bytes →
        readDefinitionChain file root =
          .ok (linkedBytes bytes ((List.range' first (continuationCount length)).headD 0),
            definitionMaps bytes, root :: List.range' first (continuationCount length))) := by
  refine ⟨fun file root table => DefinitionEdit.encode_new, ?_,
    fun file root first length bytes => Composed.reads⟩
  intro file file' edits edits' originalPages bytes hplan hpages hok hsame hbytes
  -- the staged pages hold the pieces, which the reader puts together
  obtain ⟨hne, hhold, hnew, hsurplus⟩ := stageBytes_ok hplan hpages hok
  have hlength := @length_stagedPages file edits originalPages bytes.length
  have hdistinct := @Stageable.nodup_stagedPages file edits originalPages bytes.length hpages
  have hzero := @Stageable.stagedPages_ne_zero file edits originalPages bytes.length hpages hne
  have hhead := @head?_stagedPages file edits originalPages bytes.length hne
  have hhold' : HoldPieces file' (stagedPages file edits originalPages bytes.length) bytes := by
    intro ordinal page hpage
    rw [hsame page (List.mem_of_getElem? hpage)]
    exact hhold ordinal page hpage
  rcases hstaged : stagedPages file edits originalPages bytes.length with _ | ⟨root, rest⟩
  · rw [hstaged, List.length_nil] at hlength
    have := (definitionPageCount_bounds bytes.length).1
    omega
  rw [hstaged] at hlength hdistinct hzero hhead hhold' hnew hsurplus
  rw [List.length_cons] at hlength
  refine ⟨root, rest, rfl, hhead.symm, hdistinct, ?_, hhold'.last_link, hnew, hsurplus⟩
  exact hhold'.reads hdistinct hzero hbytes (by omega) (by omega)

/-! ## A chain that gives up a page -/

/-- A data page whose one row is an inline map of no page. -/
def emptyMapPage : Page :=
  ((Block.fill pageBytes 0).write 0 [1]).write 8 [1, 0, 0xfa, 0x07]

/-- The definition of a table without columns, its map rows on page 1, as a chain whose root links
to `next` holds it. -/
def emptyDefinition (next : PageNumber) : List UInt8 :=
  definitionPrefix ++ leBytes 4 next ++ leBytes 4 45 ++ List.replicate 8 0 ++ [0x4e] ++
    List.replicate 14 0 ++ [0, 1, 0, 0] ++ [0, 1, 0, 0] ++ [0xff, 0xff]

/-- A chain of the pages 2 and 3 that holds a definition of 2,049 bytes. -/
def twoPageChain : PageFile :=
  let header := definitionPrefix ++ leBytes 4 3 ++ leBytes 4 2049 ++ List.replicate 8 0 ++ [0x4e] ++
    List.replicate 14 0 ++ [0, 1, 0, 0] ++ [0, 1, 0, 0]
  [Block.fill pageBytes 0, emptyMapPage, (Block.fill pageBytes 0).write 0 header,
    (Block.fill pageBytes 0).write 0 definitionPrefix]

/-- The bytes hold their length and their map rows. -/
theorem emptyDefinition_bytes (next : PageNumber) {pageCount : ℕ} (h : 1 < pageCount) :
    DefinitionBytes pageCount (emptyDefinition next) where
  minimum_le := le_refl 45
  length_eq := rfl
  owned_lt := h
  available_lt := h

/-- The pages can be staged over. -/
theorem stageable_twoPageChain : Stageable twoPageChain (PageEdits.new 4) [2, 3] where
  distinct := by decide
  nonzero := by decide
  stored := by decide
  link_lt := by decide
  fresh := by simp [PageEdits.new, PageEdits.changeOf]

/-- The shorter definition is staged. -/
theorem stageBytes_twoPageChain :
    ∃ edits', stageBytes twoPageChain [2, 3] (emptyDefinition 3) (PageEdits.new 4) = .ok edits' :=
  Outcome.exists_ok (by decide +kernel)

/-- The staged bytes themselves are not read back where the chain gives up a page: its root loses
the link it had. -/
theorem stageBytes_relinks :
    ∃ edits', stageBytes twoPageChain [2, 3] (emptyDefinition 3) (PageEdits.new 4) = .ok edits' ∧
      DefinitionBytes 4 (emptyDefinition 3) ∧ Stageable twoPageChain (PageEdits.new 4) [2, 3] ∧
      ¬∃ maps pages, readDefinitionChain (edits'.overlay twoPageChain) 2 =
        .ok (emptyDefinition 3, maps, pages) := by
  obtain ⟨edits', hok⟩ := stageBytes_twoPageChain
  refine ⟨edits', hok, emptyDefinition_bytes 3 (by decide), stageable_twoPageChain, ?_⟩
  rintro ⟨maps, pages, hread⟩
  obtain ⟨-, hhold, -⟩ := stageBytes_ok rfl stageable_twoPageChain hok
  have hpages : stagedPages twoPageChain (PageEdits.new 4) [2, 3] (emptyDefinition 3).length =
    [2] := by
    decide
  rw [hpages] at hhold
  have hcount : (edits'.overlay twoPageChain).pageCount = 4 + edits'.appended.length := by
    rw [PageFile.pageCount, PageEdits.length_overlay]
    rfl
  have hlinked := hhold.reads (List.pairwise_singleton _ _) (by decide)
    (emptyDefinition_bytes 3 (by omega)) (by decide) (by decide)
  rw [hlinked] at hread
  cases hread

/-! ## A definition on two pages -/

/-- A table of numbers under names of 64 bytes, and an index of the first one. -/
def numbersSpec (columns : ℕ) : TableDefinitionSpec :=
  { kind := .user
    columns := (List.range columns).map fun ordinal =>
      { name := (0x41 + .ofNat ordinal) :: List.replicate 63 0x4e, columnType := .long }
    systemColumnClasses := []
    physicalIndexes :=
      [{ fields := [{ column := 0, direction := .ascending }], usageMapPage := 1, usageMapRow := 0
         root := 2, flags := .unique, entryCount := 0 }]
    indexes := [{ name := [0x49], physicalIndex := 0, kind := .ordinary }]
    ownedMap := { page := 1, row := 0 }
    availableMap := { page := 1, row := 0 }
    rowCount := 0
    longValueMaps := [] }

/-- The encoded definition of 26 columns, 2,272 bytes long. -/
def numbersDefinition : List UInt8 :=
  (encodeTableDefinition (numbersSpec 26) 4096 generalContext).toOption.getD []

/-- The pages the definition is composed on. -/
def numbersPages : DefinitionPages :=
  (DefinitionPages.new numbersDefinition.length).fill numbersDefinition

/-- A file with the composed definition on the pages 3 and 4, behind the maps of the table and the
root of its index. -/
def numbersFile : PageFile :=
  [Block.fill pageBytes 0, emptyMapPage, (Block.fill pageBytes 0).write 0 [4],
    (numbersPages.root (some 4)).toOption.getD (Block.fill pageBytes 0),
    (numbersPages.continuation 4 0 (pieceAt numbersDefinition 1)).toOption.getD
      (Block.fill pageBytes 0)]

/-- The same table with two columns, whose definition fits the page 3. The page behind the file is
free. -/
def narrowFile : PageFile :=
  [Block.fill pageBytes 0, emptyMapPage.write 2047 [0x10], (Block.fill pageBytes 0).write 0 [4],
    match encodeTableDefinition (numbersSpec 2) pageBytes generalContext with
    | .ok bytes => (Block.fill pageBytes 0).write 0 bytes
    | .error _ => Block.fill pageBytes 0]

/-- The length of the definition, its first bytes, and the rows of its maps. -/
theorem length_numbersDefinition : numbersDefinition.length = 2272 ∧
    numbersDefinition.take 4 = definitionPrefix ∧ leAt numbersDefinition 8 4 = 2272 ∧
      definitionMaps numbersDefinition =
        { owned := { page := 1, row := 0 }, available := { page := 1, row := 0 } } := by
  decide +kernel

theorem numbersDefinition_bytes {pageCount : ℕ} (h : 1 < pageCount) :
    DefinitionBytes pageCount numbersDefinition := by
  obtain ⟨hlength, -, hfield, hmaps⟩ := length_numbersDefinition
  constructor
  · rw [hlength]
    decide
  · rw [hlength, hfield]
  · rw [hmaps]
    exact h
  · rw [hmaps]
    exact h

/-- The file holds the two composed pages. -/
theorem composed_numbersFile :
    Composed numbersFile ((DefinitionPages.new 2272).fill numbersDefinition) 3 4 := by
  have hlength := length_numbersDefinition.1
  have hcount : continuationCount 2272 = 1 := rfl
  obtain ⟨⟨root, hroot⟩, continuation, hcontinuation⟩ :
      (∃ root, numbersPages.root (some 4) = .ok root) ∧
        ∃ image, numbersPages.continuation 4 0 (pieceAt numbersDefinition 1) = .ok image :=
    ⟨Outcome.exists_ok (by decide +kernel), Outcome.exists_ok (by decide +kernel)⟩
  have hrootPage : numbersFile[3]? = some root := by
    rw [numbersFile, hroot]
    rfl
  have hcontinuationPage : numbersFile[4]? = some continuation := by
    rw [numbersFile, hcontinuation]
    rfl
  have hpages : numbersPages = (DefinitionPages.new 2272).fill numbersDefinition :=
    congrArg (fun length => (DefinitionPages.new length).fill numbersDefinition) hlength
  rw [hpages] at hroot hcontinuation
  constructor
  · exact ⟨root, hroot, hrootPage⟩
  · intro ordinal payload h
    rw [DefinitionPages.continuations_fill hlength, hcount] at h
    split at h
    next hordinal =>
      obtain rfl : ordinal = 0 := by omega
      obtain rfl := Option.some.inj h
      exact ⟨continuation, hcontinuation, hcontinuationPage⟩
    next => cases h

/-- The page can be staged over. -/
theorem stageable_narrowFile : Stageable narrowFile (PageEdits.new 4) [3] := by
  obtain ⟨⟨bytes, maps, pages⟩, hread, hpages⟩ := Outcome.exists_ok_and
    (x := readDefinitionChain narrowFile 3) (p := fun chain => decide (chain.2.2 = [3]))
    (by decide +kernel)
  obtain rfl : pages = [3] := of_decide_eq_true hpages
  exact stageable_of_read hread fun _ _ => by simp [PageEdits.new, PageEdits.changeOf]

/-- Every part at work: a definition on two pages is reproduced, staged over a chain of one page,
and composed; a shorter one is staged over a longer chain. -/
theorem definitionChains_lossless_numbersDefinition :
    (∃ table bytes, tableDefinition numbersFile 3 = .ok table ∧
      (table.columns.length = 26 ∧ table.indexes.length = 1) ∧ table.pages = [3, 4] ∧
        readDefinitionChain numbersFile 3 = .ok (bytes, definitionMaps numbersDefinition, [3, 4]) ∧
          (DefinitionEdit.new table).encode = .ok bytes) ∧
    (∃ edits', stageBytes narrowFile [3] numbersDefinition (PageEdits.new 4) = .ok edits' ∧
      readDefinitionChain (edits'.overlay narrowFile) 3 =
        .ok (linkedBytes numbersDefinition 4, definitionMaps numbersDefinition, [3, 4]) ∧
      edits'.requested globalLocator 4 = some false) ∧
    (∃ edits', stageBytes twoPageChain [2, 3] (emptyDefinition 3) (PageEdits.new 4) = .ok edits' ∧
      readDefinitionChain (edits'.overlay twoPageChain) 2 =
        .ok (linkedBytes (emptyDefinition 3) 0, definitionMaps (emptyDefinition 3), [2]) ∧
      edits'.requested globalLocator 3 = some true) ∧
    readDefinitionChain numbersFile 3 =
      .ok (linkedBytes numbersDefinition 4, definitionMaps numbersDefinition, [3, 4]) := by
  obtain ⟨hlength, hinitial, -, -⟩ := length_numbersDefinition
  have hcomposed := definitionChains_lossless.2.2 numbersFile 3 4 2272 numbersDefinition hlength
    hinitial
    composed_numbersFile (by decide) (by decide) (by decide) (numbersDefinition_bytes (by decide))
  have hlinked : (List.range' 4 (continuationCount 2272)) = [4] := rfl
  rw [hlinked] at hcomposed
  obtain ⟨table, htable, hcounts⟩ : ∃ table, tableDefinition numbersFile 3 = .ok table ∧
      decide (table.columns.length = 26 ∧ table.indexes.length = 1) = true := by
    rw [tableDefinition, hcomposed]
    exact Outcome.exists_ok_and (by decide +kernel)
  refine ⟨?_, ?_, ?_, hcomposed⟩
  · -- the chain of two pages is reproduced
    obtain ⟨bytes, maps, hread, hencode⟩ := definitionChains_lossless.1 numbersFile 3 table htable
    have hsame := hread
    rw [hcomposed, Except.ok.injEq, Prod.mk.injEq, Prod.mk.injEq] at hsame
    obtain ⟨-, rfl, hpages⟩ := hsame
    exact ⟨table, bytes, htable, of_decide_eq_true hcounts, hpages.symm, hpages ▸ hread, hencode⟩
  · -- a chain that grows by a page
    obtain ⟨edits', hok⟩ : ∃ edits',
        stageBytes narrowFile [3] numbersDefinition (PageEdits.new 4) = .ok edits' :=
      Outcome.exists_ok (by decide +kernel)
    have hcount : 1 < (edits'.overlay narrowFile).pageCount := by
      rw [PageFile.pageCount, PageEdits.length_overlay]
      exact Nat.lt_add_right _ (by decide)
    obtain ⟨root, rest, hstaged, -, -, hread, -, hnew, -⟩ :=
      definitionChains_lossless.2.1 narrowFile
      (edits'.overlay narrowFile) (PageEdits.new 4) edits' [3] numbersDefinition rfl
      stageable_narrowFile hok (fun _ _ => rfl) (numbersDefinition_bytes hcount)
    obtain ⟨rfl, rfl⟩ : 3 = root ∧ [4] = rest := by
      rw [hlength] at hstaged
      exact List.cons.inj hstaged
    exact ⟨edits', hok, hread, hnew 4 (by decide) (by decide)⟩
  · -- a chain that gives a page back
    obtain ⟨edits', hok⟩ := stageBytes_twoPageChain
    have hcount : 1 < (edits'.overlay twoPageChain).pageCount := by
      rw [PageFile.pageCount, PageEdits.length_overlay]
      exact Nat.lt_add_right _ (by decide)
    obtain ⟨root, rest, hstaged, -, -, hread, -, -, hsurplus⟩ := definitionChains_lossless.2.1
      twoPageChain (edits'.overlay twoPageChain) (PageEdits.new 4) edits' [2, 3] (emptyDefinition 3)
        rfl
      stageable_twoPageChain hok (fun _ _ => rfl) (emptyDefinition_bytes 3 hcount)
    obtain ⟨rfl, rfl⟩ : 2 = root ∧ [] = rest := List.cons.inj hstaged
    exact ⟨edits', hok, hread, hsurplus 3 (by decide) (by decide)⟩

end Jet3
