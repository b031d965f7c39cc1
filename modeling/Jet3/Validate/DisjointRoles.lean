import Jet3.Alloc.MapAgreement
import Jet3.Definition.Chain
import Jet3.Definition.TableWriter
import Jet3.Validate.AllocationRoles

/-!
# Disjoint roles

What a file accepted by the validator of page roles looks like, whatever order its tables are
visited in: the pages of each role, and which roles keep apart.

* `DisjointRoles` and `PageZeroReserved` state it for decoded definitions and loaded maps;
* `validateTables_ok_iff` says that the validator accepts exactly these files.
-/

namespace Jet3

open Outcome

namespace Ledger

/-! ## The pages of a role -/

/-- The pages claimed for a role. -/
def pagesOf (role : PageRole) (ledger : Ledger) : List PageNumber :=
  ledger.claims.filterMap fun claim => if claim.1 = role then some claim.2 else none

theorem mem_pagesOf {role : PageRole} {ledger : Ledger} {page : PageNumber} :
    page ∈ ledger.pagesOf role ↔ (role, page) ∈ ledger.claims := by
  simp only [pagesOf, List.mem_filterMap, Option.ite_none_right_eq_some, Option.some.injEq]
  constructor
  · rintro ⟨⟨_, _⟩, hmem, rfl, rfl⟩
    exact hmem
  · exact fun hmem => ⟨_, hmem, rfl, rfl⟩

@[simp]
theorem pagesOf_add (role : PageRole) (a b : Ledger) :
    (a.add b).pagesOf role = a.pagesOf role ++ b.pagesOf role :=
  List.filterMap_append ..

@[simp]
theorem pagesOf_empty (role : PageRole) : empty.pagesOf role = [] :=
  rfl

@[simp]
theorem pagesOf_sum (role : PageRole) (ledgers : List Ledger) :
    (sum ledgers).pagesOf role = ledgers.flatMap (pagesOf role) := by
  induction ledgers with
  | nil => rfl
  | cons ledger ledgers ih => rw [sum_cons, pagesOf_add, ih, List.flatMap_cons]

@[simp]
theorem pagesOf_claim (role claimed : PageRole) (page : PageNumber) :
    (claim claimed page).pagesOf role = if claimed = role then [page] else [] := by
  by_cases h : claimed = role <;> simp [pagesOf, claim, h]

@[simp]
theorem pagesOf_locator (role : PageRole) (locator : MapRowLocator) :
    (Ledger.locator locator).pagesOf role = [] :=
  rfl

@[simp]
theorem pagesOf_listed (role : PageRole) (maps : MapBits × MapBits) :
    (listed maps).pagesOf role = [] :=
  rfl

@[simp]
theorem locators_add (a b : Ledger) : (a.add b).locators = a.locators ++ b.locators :=
  rfl

@[simp]
theorem locators_empty : empty.locators = [] :=
  rfl

@[simp]
theorem locators_sum (ledgers : List Ledger) : (sum ledgers).locators = ledgers.flatMap locators :=
  rfl

@[simp]
theorem locators_claim (role : PageRole) (page : PageNumber) : (claim role page).locators = [] :=
  rfl

@[simp]
theorem locators_locator (locator : MapRowLocator) :
    (Ledger.locator locator).locators = [locator] :=
  rfl

@[simp]
theorem locators_listed (maps : MapBits × MapBits) : (listed maps).locators = [] :=
  rfl

@[simp]
theorem available_add (a b : Ledger) : (a.add b).available = a.available ++ b.available :=
  rfl

@[simp]
theorem available_empty : empty.available = [] :=
  rfl

@[simp]
theorem available_sum (ledgers : List Ledger) :
    (sum ledgers).available = ledgers.flatMap available :=
  rfl

@[simp]
theorem available_claim (role : PageRole) (page : PageNumber) : (claim role page).available = [] :=
  rfl

@[simp]
theorem available_locator (locator : MapRowLocator) : (Ledger.locator locator).available = [] :=
  rfl

@[simp]
theorem available_listed (maps : MapBits × MapBits) : (listed maps).available = [maps] :=
  rfl

/-- Claims go together where metadata and content keep to themselves and records keep apart from
both. -/
theorem pairwise_compatible_iff {ledger : Ledger} :
    ledger.claims.Pairwise PageRole.Compatible ↔
      (ledger.pagesOf .metadata).Nodup ∧ (ledger.pagesOf .content).Nodup ∧
        (ledger.pagesOf .metadata).Disjoint (ledger.pagesOf .record) ∧
        (ledger.pagesOf .metadata).Disjoint (ledger.pagesOf .content) ∧
        (ledger.pagesOf .record).Disjoint (ledger.pagesOf .content) := by
  obtain ⟨claims, locators, available⟩ := ledger
  dsimp only
  induction claims with
  | nil => simp [pagesOf]
  | cons claim claims ih =>
    obtain ⟨role, page⟩ := claim
    -- what the first claim asks of the others
    have hfirst : (∀ other ∈ claims, PageRole.Compatible (role, page) other) ↔
        page ∉ pagesOf .metadata ⟨claims, locators, available⟩ ∧
          page ∉ pagesOf .content ⟨claims, locators, available⟩ ∧
          (role ≠ .record → page ∉ pagesOf .record ⟨claims, locators, available⟩) := by
      simp only [mem_pagesOf]
      constructor
      · intro h
        refine ⟨fun hmem => ?_, fun hmem => ?_, fun hrole hmem => hrole (h _ hmem rfl).1⟩
        · cases (h _ hmem rfl).2
        · cases (h _ hmem rfl).2
      · rintro ⟨hmetadata, hcontent, hrecord⟩ ⟨other, page'⟩ hmem heq
        obtain rfl : page = page' := heq
        cases other with
        | metadata => exact absurd hmem hmetadata
        | content => exact absurd hmem hcontent
        | record => exact ⟨not_not.mp fun hrole => hrecord hrole hmem, rfl⟩
    have hpages : ∀ other, pagesOf other ⟨(role, page) :: claims, locators, available⟩ =
        if role = other then page :: pagesOf other ⟨claims, locators, available⟩
        else pagesOf other ⟨claims, locators, available⟩ := by
      intro other
      by_cases hrole : role = other <;> simp [pagesOf, hrole]
    rw [List.pairwise_cons, ih, hfirst, hpages, hpages, hpages]
    cases role <;>
      simp only [reduceCtorEq, if_true, if_false, ne_eq, not_true_eq_false, not_false_eq_true,
        false_implies, true_implies, List.nodup_cons, List.disjoint_cons_left,
        List.disjoint_cons_right] <;>
      tauto

end Ledger

namespace AllocationState

variable {file : PageFile} {loaded : MapRowLocator → MapBits} {definitions : List TableDefinition}

/-! ## The pages of a file -/

/-- Every map of a file: the global one, and each owned map with its available map. -/
def mapLocators (definitions : List TableDefinition) : List MapRowLocator :=
  globalLocator :: (definitions.flatMap ownedMaps).flatMap locatorsOf

/-- The definition pages and the extended bitmap pages. -/
def metadataPages (loaded : MapRowLocator → MapBits) (definitions : List TableDefinition) :
    List PageNumber :=
  definitions.flatMap TableDefinition.pages ++
    (mapLocators definitions).flatMap fun locator => bitmapPages (loaded locator)

/-- The pages of all map rows. -/
def recordPages (definitions : List TableDefinition) : List PageNumber :=
  (mapLocators definitions).map MapRowLocator.page

/-- The members of the owned maps. -/
def contentPages (loaded : MapRowLocator → MapBits) (definitions : List TableDefinition) :
    List PageNumber :=
  (definitions.flatMap ownedMaps).flatMap fun maps => (loaded maps.1).pages

/-- The roles of the pages keep apart. -/
structure DisjointRoles (loaded : MapRowLocator → MapBits) (definitions : List TableDefinition)
    (pageCount : ℕ) : Prop where
  locators : (mapLocators definitions).Nodup
  metadata_nodup : (0 :: metadataPages loaded definitions).Nodup
  metadata_record : (0 :: metadataPages loaded definitions).Disjoint (recordPages definitions)
  metadata_content : (metadataPages loaded definitions).Disjoint (contentPages loaded definitions)
  record_content : (recordPages definitions).Disjoint (contentPages loaded definitions)
  content_disjoint : (definitions.flatMap ownedMaps).Pairwise fun maps other =>
    (loaded maps.1).pages.Disjoint (loaded other.1).pages
  content_inside : ∀ page ∈ contentPages loaded definitions, page < pageCount
  available_subset : ∀ maps ∈ definitions.flatMap ownedMaps, ∀ available ∈ maps.2,
    (loaded available).pages ⊆ (loaded maps.1).pages
  allocated : ∀ page ∈ metadataPages loaded definitions ++ recordPages definitions ++
    contentPages loaded definitions, (loaded globalLocator).contains page = false

/-- Page zero is neither owned nor free. -/
structure PageZeroReserved (loaded : MapRowLocator → MapBits) (definitions : List TableDefinition) :
    Prop where
  not_owned : 0 ∉ contentPages loaded definitions
  not_free : (loaded globalLocator).contains 0 = false

/-! ## The ledger of a file -/

theorem flatMap_nothing {α β : Type} (items : List α) :
    items.flatMap (fun _ => ([] : List β)) = [] :=
  List.flatMap_eq_nil_iff.mpr fun _ _ => rfl

theorem mapLedger_pagesOf (role : PageRole) (map : MapBits) :
    (mapLedger map).pagesOf role =
      (if role = .record then [map.locator.page] else []) ++
        if role = .metadata then bitmapPages map else [] := by
  cases role <;> simp [mapLedger, List.flatMap_map]

theorem mapLedger_locators (map : MapBits) : (mapLedger map).locators = [map.locator] := by
  simp [mapLedger, List.flatMap_map]

theorem mapLedger_available (map : MapBits) : (mapLedger map).available = [] := by
  simp [mapLedger, List.flatMap_map]

theorem ownedLedger_locators (maps : MapRowLocator × Option MapRowLocator) :
    (ownedLedger loaded maps).locators =
      (locatorsOf maps).map fun locator => (loaded locator).locator := by
  obtain ⟨owned, _ | available⟩ := maps <;>
    simp [ownedLedger, locatorsOf, mapLedger_locators, List.flatMap_map]

theorem ownedLedger_available (maps : MapRowLocator × Option MapRowLocator) :
    (ownedLedger loaded maps).available =
      maps.2.toList.map fun available => (loaded available, loaded maps.1) := by
  obtain ⟨owned, _ | available⟩ := maps <;>
    simp [ownedLedger, mapLedger_available, List.flatMap_map]

theorem ownedLedger_record (maps : MapRowLocator × Option MapRowLocator) :
    (ownedLedger loaded maps).pagesOf .record =
      (locatorsOf maps).map fun locator => (loaded locator).locator.page := by
  obtain ⟨owned, _ | available⟩ := maps <;>
    simp [ownedLedger, locatorsOf, mapLedger_pagesOf, List.flatMap_map]

theorem ownedLedger_metadata (maps : MapRowLocator × Option MapRowLocator) :
    (ownedLedger loaded maps).pagesOf .metadata =
      (locatorsOf maps).flatMap fun locator => bitmapPages (loaded locator) := by
  obtain ⟨owned, _ | available⟩ := maps <;>
    simp [ownedLedger, locatorsOf, mapLedger_pagesOf, List.flatMap_map]

theorem ownedLedger_content (maps : MapRowLocator × Option MapRowLocator) :
    (ownedLedger loaded maps).pagesOf .content = (loaded maps.1).pages := by
  obtain ⟨owned, _ | available⟩ := maps <;>
    simp [ownedLedger, mapLedger_pagesOf, List.flatMap_map]

/-! ## The loaded maps -/

/-- The maps a file is validated with are those of its locators. -/
def LoadedMaps (file : PageFile) (loaded : MapRowLocator → MapBits)
    (definitions : List TableDefinition) : Prop :=
  ∀ locator ∈ mapLocators definitions, MapBits.load file locator = .ok (loaded locator)

/-- Every map of a table is loaded. -/
theorem LoadedMaps.load (h : LoadedMaps file loaded definitions) : ∀ definition ∈ definitions,
    ∀ maps ∈ ownedMaps definition, ∀ locator ∈ locatorsOf maps,
      MapBits.load file locator = .ok (loaded locator) := by
  intro definition hdefinition maps hmaps locator hlocator
  refine h locator (List.mem_cons_of_mem _ ?_)
  exact List.mem_flatMap.mpr ⟨maps, List.mem_flatMap.mpr ⟨definition, hdefinition, hmaps⟩, hlocator⟩

/-- A loaded map knows its row. -/
theorem LoadedMaps.locator_eq (h : LoadedMaps file loaded definitions) :
    ∀ locator ∈ mapLocators definitions, (loaded locator).locator = locator :=
  fun locator hlocator => MapBits.load_locator (h locator hlocator)

theorem fileLedger_locators (h : LoadedMaps file loaded definitions) :
    (fileLedger loaded definitions).locators = mapLocators definitions := by
  calc (fileLedger loaded definitions).locators
      = (mapLocators definitions).map fun locator => (loaded locator).locator := by
        simp [fileLedger, tableLedger, mapLocators, mapLedger_locators, ownedLedger_locators,
          flatMap_nothing, List.flatMap_map, List.map_flatMap, List.flatMap_assoc]
    _ = (mapLocators definitions).map id := List.map_congr_left h.locator_eq
    _ = mapLocators definitions := List.map_id _

theorem fileLedger_available :
    (fileLedger loaded definitions).available = (definitions.flatMap ownedMaps).flatMap fun maps =>
      maps.2.toList.map fun available => (loaded available, loaded maps.1) := by
  simp [fileLedger, tableLedger, mapLedger_available, ownedLedger_available, flatMap_nothing,
    List.flatMap_map, List.flatMap_assoc]

/-- The pages of the map rows. -/
theorem fileLedger_record (h : LoadedMaps file loaded definitions) :
    (fileLedger loaded definitions).pagesOf .record = recordPages definitions := by
  calc (fileLedger loaded definitions).pagesOf .record
      = (mapLocators definitions).map fun locator => (loaded locator).locator.page := by
        simp [fileLedger, tableLedger, mapLocators, mapLedger_pagesOf, ownedLedger_record,
          flatMap_nothing, List.flatMap_map, List.map_flatMap, List.flatMap_assoc]
    _ = recordPages definitions :=
        List.map_congr_left fun locator hlocator => congrArg _ (h.locator_eq locator hlocator)

/-- The pages the tables own. -/
theorem fileLedger_content :
    (fileLedger loaded definitions).pagesOf .content = contentPages loaded definitions := by
  simp [fileLedger, tableLedger, contentPages, mapLedger_pagesOf, ownedLedger_content,
    flatMap_nothing, List.flatMap_map, List.flatMap_assoc]

/-- The tables claim their definition pages one table at a time, between the pages of their maps. -/
theorem fileLedger_metadata :
    ((fileLedger loaded definitions).pagesOf .metadata).Perm
      (0 :: metadataPages loaded definitions) := by
  have hledger : (fileLedger loaded definitions).pagesOf .metadata =
      0 :: (bitmapPages (loaded globalLocator) ++ definitions.flatMap fun definition =>
        definition.pages ++ (ownedMaps definition).flatMap fun maps =>
          (locatorsOf maps).flatMap fun locator => bitmapPages (loaded locator)) := by
    simp [fileLedger, tableLedger, mapLedger_pagesOf, ownedLedger_metadata, List.flatMap_map]
  rw [hledger, metadataPages, mapLocators, List.flatMap_cons]
  refine List.Perm.cons _ ?_
  refine ((List.flatMap_append_perm definitions _ _).symm.append_left _).trans ?_
  rw [← List.append_assoc, ← List.append_assoc, List.flatMap_assoc, List.flatMap_assoc]
  exact List.perm_append_comm.append_right _

/-! ## What the validator accepts -/

/-- Definitions as they are read from the file. -/
def Decoded (file : PageFile) (definitions : List TableDefinition) : Prop :=
  ∀ definition ∈ definitions, ∃ root, tableDefinition file root = .ok definition

/-- The pages of the definitions are in the file. -/
theorem Decoded.pages_lt (h : Decoded file definitions) :
    ∀ page ∈ definitions.flatMap TableDefinition.pages, page < file.pageCount := by
  intro page hpage
  obtain ⟨definition, hdefinition, hmem⟩ := List.mem_flatMap.mp hpage
  obtain ⟨root, hread⟩ := h definition hdefinition
  simp only [tableDefinition, bind_ok_iff, Prod.exists, pure_ok_iff] at hread
  obtain ⟨bytes, maps, pages, hchain, decoded, -, _, -, rfl⟩ := hread
  obtain ⟨first, used, terminal, hpages, rfl⟩ := readDefinitionChain_ok_iff.mp hchain
  exact (hpages.stored page hmem).2

/-- The record and the bitmaps of a loaded map are pages of the file. -/
theorem LoadedMaps.pages_lt (h : LoadedMaps file loaded definitions) :
    (∀ page ∈ recordPages definitions, page < file.pageCount) ∧
      ∀ page ∈ (mapLocators definitions).flatMap fun locator => bitmapPages (loaded locator),
        page < file.pageCount := by
  constructor
  · intro page hpage
    obtain ⟨locator, hlocator, rfl⟩ := List.mem_map.mp hpage
    exact MapBits.load_page_lt (h locator hlocator)
  · intro page hpage
    obtain ⟨locator, hlocator, hmem⟩ := List.mem_flatMap.mp hpage
    obtain ⟨span, hspan, rfl⟩ := List.mem_map.mp (List.mem_of_mem_filter hmem)
    exact MapBits.load_span_lt (h locator hlocator) span hspan

/-- A ledger is sound exactly where the roles of the pages keep apart. -/
theorem sound_fileLedger_iff (hmaps : LoadedMaps file loaded definitions)
    (hdecoded : Decoded file definitions) :
    (fileLedger loaded definitions).Sound (loaded globalLocator) file.pageCount ↔
      DisjointRoles loaded definitions file.pageCount ∧ PageZeroReserved loaded definitions := by
  have hrecord := fileLedger_record hmaps
  have hcontent := @fileLedger_content loaded definitions
  have hmetadata := @fileLedger_metadata loaded definitions
  have hpositive : 0 < file.pageCount :=
    lt_of_le_of_lt (Nat.zero_le _) (MapBits.load_page_lt (hmaps globalLocator List.mem_cons_self))
  -- a claim is a page of one of the three roles
  have hclaims : ∀ P : PageNumber → Prop,
      (∀ claim ∈ (fileLedger loaded definitions).claims, P claim.2) ↔
        (∀ page ∈ 0 :: metadataPages loaded definitions, P page) ∧
          (∀ page ∈ recordPages definitions, P page) ∧
          ∀ page ∈ contentPages loaded definitions, P page := by
    intro P
    simp only [← hrecord, ← hcontent, ← hmetadata.mem_iff, Ledger.mem_pagesOf]
    constructor
    · exact fun h => ⟨fun page hpage => h _ hpage, fun page hpage => h _ hpage,
        fun page hpage => h _ hpage⟩
    · rintro ⟨hm, hr, hc⟩ ⟨role, page⟩ hclaim
      cases role with
      | metadata => exact hm page hclaim
      | record => exact hr page hclaim
      | content => exact hc page hclaim
  have hnodup : (contentPages loaded definitions).Nodup ↔
      (definitions.flatMap ownedMaps).Pairwise fun maps other =>
        (loaded maps.1).pages.Disjoint (loaded other.1).pages := by
    rw [contentPages, List.nodup_flatMap]
    refine ⟨fun h => h.2, fun h => ⟨fun maps hmem => ?_, h⟩⟩
    have hlocator : maps.1 ∈ mapLocators definitions :=
      List.mem_cons_of_mem _ (List.mem_flatMap.mpr ⟨maps, hmem, List.mem_cons_self⟩)
    exact (MapBits.load_spaced (hmaps maps.1 hlocator)).pairwise_pages.imp fun hlt =>
      Nat.ne_of_lt hlt
  have hlisted : ∀ P : PageNumber → MapBits → Prop,
      (∀ maps ∈ (fileLedger loaded definitions).available, ∀ page ∈ maps.1.pages, P page maps.2) ↔
        ∀ maps ∈ definitions.flatMap ownedMaps, ∀ available ∈ maps.2,
          ∀ page ∈ (loaded available).pages, P page (loaded maps.1) := by
    intro P
    simp only [fileLedger_available, List.mem_flatMap (l := definitions.flatMap ownedMaps),
      List.mem_map, Option.mem_toList]
    constructor
    · exact fun h maps hmem available havailable => h _ ⟨maps, hmem, available, havailable, rfl⟩
    · rintro h _ ⟨maps, hmem, available, havailable, rfl⟩
      exact h maps hmem available havailable
  constructor
  · intro h
    obtain ⟨hm, hc, hmr, hmc, hrc⟩ := Ledger.pairwise_compatible_iff.mp h.compatible
    rw [hrecord] at hmr hrc
    rw [hcontent] at hc hmc hrc
    have hmc' : (0 :: metadataPages loaded definitions).Disjoint
      (contentPages loaded definitions) :=
      fun page hpage => hmc (hmetadata.mem_iff.mpr hpage)
    obtain ⟨hfreeMetadata, hfreeRecord, hfreeContent⟩ :=
      (hclaims fun page => (loaded globalLocator).contains page = false).mp h.allocated
    rw [List.disjoint_cons_left] at hmc'
    refine ⟨⟨?_, hmetadata.nodup_iff.mp hm, fun page hpage => hmr (hmetadata.mem_iff.mpr hpage),
      hmc'.2, hrc, hnodup.mp hc, ((hclaims (· < file.pageCount)).mp h.inside).2.2, ?_, ?_⟩, hmc'.1,
      hfreeMetadata 0 List.mem_cons_self⟩
    · rw [← fileLedger_locators hmaps]
      exact h.locators_nodup
    · exact fun maps hmem available havailable page hpage =>
        ((hlisted fun page owned => page < file.pageCount ∧ page ∈ owned.pages).mp
          h.available maps hmem available havailable page hpage).2
    · intro page hpage
      rcases List.mem_append.mp hpage with hpage | hpage
      · rcases List.mem_append.mp hpage with hpage | hpage
        · exact hfreeMetadata page (List.mem_cons_of_mem _ hpage)
        · exact hfreeRecord page hpage
      · exact hfreeContent page hpage
  · rintro ⟨h, hzero⟩
    obtain ⟨hrecordLt, hbitmapLt⟩ := hmaps.pages_lt
    have hmc : (0 :: metadataPages loaded definitions).Disjoint (contentPages loaded definitions) :=
      List.disjoint_cons_left.mpr ⟨hzero.not_owned, h.metadata_content⟩
    constructor
    · rw [Ledger.pairwise_compatible_iff, hrecord, hcontent]
      exact ⟨hmetadata.nodup_iff.mpr h.metadata_nodup, hnodup.mpr h.content_disjoint,
        fun page hpage => h.metadata_record (hmetadata.mem_iff.mp hpage),
        fun page hpage => hmc (hmetadata.mem_iff.mp hpage), h.record_content⟩
    · refine (hclaims fun page => (loaded globalLocator).contains page = false).mpr
        ⟨fun page hpage => ?_, fun page hpage => ?_, fun page hpage => ?_⟩
      · rcases List.mem_cons.mp hpage with rfl | hpage
        · exact hzero.not_free
        · exact h.allocated page (List.mem_append_left _ (List.mem_append_left _ hpage))
      · exact h.allocated page (List.mem_append_left _ (List.mem_append_right _ hpage))
      · exact h.allocated page (List.mem_append_right _ hpage)
    · refine (hclaims (· < file.pageCount)).mpr
        ⟨fun page hpage => ?_, hrecordLt, h.content_inside⟩
      rcases List.mem_cons.mp hpage with rfl | hpage
      · exact hpositive
      · rcases List.mem_append.mp hpage with hpage | hpage
        · exact hdecoded.pages_lt page hpage
        · exact hbitmapLt page hpage
    · rw [fileLedger_locators hmaps]
      exact h.locators
    · refine (hlisted fun page owned => page < file.pageCount ∧ page ∈ owned.pages).mpr
        fun maps hmem available havailable page hpage => ?_
      have howned := h.available_subset maps hmem available havailable hpage
      exact ⟨h.content_inside page (List.mem_flatMap.mpr ⟨maps, hmem, howned⟩), howned⟩

/-! ## The order of the tables -/

variable {definitions' : List TableDefinition}

/-- Definitions are decoded in any order. -/
theorem Decoded.perm (h : Decoded file definitions) (hperm : definitions'.Perm definitions) :
    Decoded file definitions' :=
  fun definition hmem => h definition (hperm.mem_iff.mp hmem)

/-- The map rows do not depend on the order of the tables. -/
theorem mapLocators_perm (hperm : definitions'.Perm definitions) :
    (mapLocators definitions').Perm (mapLocators definitions) :=
  ((hperm.flatMap_right _).flatMap_right _).cons _

/-- Neither do the loaded maps. -/
theorem LoadedMaps.perm (h : LoadedMaps file loaded definitions)
    (hperm : definitions'.Perm definitions) : LoadedMaps file loaded definitions' :=
  fun locator hmem => h locator ((mapLocators_perm hperm).mem_iff.mp hmem)

/-- Neither do the owned pages. -/
theorem contentPages_perm (hperm : definitions'.Perm definitions) :
    (contentPages loaded definitions').Perm (contentPages loaded definitions) :=
  (hperm.flatMap_right _).flatMap_right _

/-- Neither does the first page. -/
theorem PageZeroReserved.perm (h : PageZeroReserved loaded definitions)
    (hperm : definitions'.Perm definitions) : PageZeroReserved loaded definitions' where
  not_owned := fun hmem => h.not_owned ((contentPages_perm hperm).mem_iff.mp hmem)
  not_free := h.not_free

/-- The roles of a file keep apart in every order of its tables. -/
theorem DisjointRoles.perm {pageCount : ℕ} (h : DisjointRoles loaded definitions pageCount)
    (hperm : definitions'.Perm definitions) : DisjointRoles loaded definitions' pageCount := by
  have hlocators := mapLocators_perm hperm
  have hmaps : (definitions'.flatMap ownedMaps).Perm (definitions.flatMap ownedMaps) :=
    hperm.flatMap_right _
  have hmetadata : (metadataPages loaded definitions').Perm (metadataPages loaded definitions) :=
    (hperm.flatMap_right _).append (hlocators.flatMap_right _)
  have hrecord : (recordPages definitions').Perm (recordPages definitions) := hlocators.map _
  have hcontent := @contentPages_perm loaded definitions definitions' hperm
  constructor
  · exact hlocators.nodup_iff.mpr h.locators
  · exact (hmetadata.cons 0).nodup_iff.mpr h.metadata_nodup
  · exact fun page hpage hmem =>
      h.metadata_record ((hmetadata.cons 0).mem_iff.mp hpage) (hrecord.mem_iff.mp hmem)
  · exact fun page hpage hmem =>
      h.metadata_content (hmetadata.mem_iff.mp hpage) (hcontent.mem_iff.mp hmem)
  · exact fun page hpage hmem =>
      h.record_content (hrecord.mem_iff.mp hpage) (hcontent.mem_iff.mp hmem)
  · exact (hmaps.pairwise_iff fun hdisjoint => List.Disjoint.symm hdisjoint).mpr h.content_disjoint
  · exact fun page hpage => h.content_inside page (hcontent.mem_iff.mp hpage)
  · exact fun maps hmem => h.available_subset maps (hmaps.mem_iff.mp hmem)
  · exact fun page hpage =>
      h.allocated page (((hmetadata.append hrecord).append hcontent).mem_iff.mp hpage)

/-- The validator accepts exactly the files whose roles keep apart and whose page zero is reserved,
in whatever order their tables are visited. -/
theorem validateTables_accepts (file : PageFile) (loaded : MapRowLocator → MapBits)
    (definitions : List TableDefinition) (hdecoded : Decoded file definitions)
    (hmaps : LoadedMaps file loaded definitions) :
    ((∃ state, validateTables file definitions = .ok state) ↔
      DisjointRoles loaded definitions file.pageCount ∧ PageZeroReserved loaded definitions) ∧
    ∀ definitions', definitions'.Perm definitions →
      ((∃ state, validateTables file definitions' = .ok state) ↔
        ∃ state, validateTables file definitions = .ok state) := by
  have haccepts : ∀ tables : List TableDefinition, tables.Perm definitions →
      ((∃ state, validateTables file tables = .ok state) ↔
        DisjointRoles loaded tables file.pageCount ∧ PageZeroReserved loaded tables) := by
    intro tables hperm
    have htables := hmaps.perm hperm
    rw [validateTables_iff (htables globalLocator List.mem_cons_self) htables.load,
      sound_fileLedger_iff htables (hdecoded.perm hperm)]
  refine ⟨haccepts definitions (List.Perm.refl _), fun definitions' hperm => ?_⟩
  rw [haccepts definitions' hperm, haccepts definitions (List.Perm.refl _)]
  exact ⟨fun h => ⟨h.1.perm hperm.symm, h.2.perm hperm.symm⟩, fun h =>
    ⟨h.1.perm hperm, h.2.perm hperm⟩⟩

/-! ## A file of two tables -/

/-- The sets of the maps of two tables, by the page of their row: the global map; the owned and the
available map of the first table, the map of its index, and those of its Memo column; and the maps
of the second table. -/
def tablesMaps : List (PageNumber × List PageNumber) :=
  [(1, []), (2, [1400]), (3, []), (4, [12]), (5, [13]), (6, [13]), (7, [14]), (8, [14])]

/-- A page with the definition of a table. -/
def definitionPage (spec : TableDefinitionSpec) : Page :=
  match encodeTableDefinition spec pageBytes generalContext with
  | .ok bytes => (Block.fill pageBytes 0).write 0 bytes
  | .error _ => Block.fill pageBytes 0

/-- A table with an index and a Memo column. -/
def firstSpec : TableDefinitionSpec :=
  { kind := .user
    columns := [{ name := [0x4b], columnType := .long }, { name := [0x4d], columnType := .memo }]
    systemColumnClasses := []
    physicalIndexes :=
      [{ fields := [{ column := 0, direction := .ascending }], usageMapPage := 4, usageMapRow := 0
         root := 12, flags := .unique, entryCount := 0 }]
    indexes := [{ name := [0x4b], physicalIndex := 0, kind := .ordinary }]
    ownedMap := { page := 2, row := 0 }
    availableMap := { page := 3, row := 0 }
    rowCount := 0
    longValueMaps :=
      [{ column := 1, owned := { page := 5, row := 0 }, available := { page := 6, row := 0 } }] }

/-- A table with one column and no index. -/
def secondSpec : TableDefinitionSpec :=
  { kind := .user, columns := [{ name := [0x4b], columnType := .long }], systemColumnClasses := []
    physicalIndexes := [], indexes := [], ownedMap := { page := 7, row := 0 }
    availableMap := { page := 8, row := 0 }, rowCount := 0, longValueMaps := [] }

/-- The pages before the bitmap page of the first table: all map rows, and both definitions on the
pages 9 and 10. -/
def tablesPages : PageFile :=
  Block.fill pageBytes 0 :: (tablesMaps.map fun map => mapPage 11 map.2) ++
    [definitionPage firstSpec, definitionPage secondSpec]

/-- The file, with the bitmap page behind the definitions and the root of the index behind that. -/
def tablesFile : PageFile :=
  tablesPages ++ (mapBitmaps 11 [1400] ++
    ((Block.fill pageBytes 0).write 0 [4] :: unusedPages 1500))

/-- Every map of the file loads as its set. -/
theorem loadsAs_tablesFile {map : PageNumber × List PageNumber} (h : map ∈ tablesMaps) :
    LoadsAs tablesFile { page := map.1, row := 0 } map.2 := by
  have hrows : ∀ map ∈ tablesMaps, (map.1 ≠ 0 ∧ map.1 < 11) ∧
      ((AllocationMaps.new 11).row map.2).toOption.any (fun result =>
        decide (result.1.length = indirectRowBytes ∧
          (result.2.extra.length = 0 ∨ map.2 = [1400]))) = true := by
    decide +kernel
  have hpages : ∀ map ∈ tablesMaps, tablesFile[map.1]? = some (mapPage 11 map.2) := by
    simp only [tablesMaps, List.forall_mem_cons]
    exact ⟨rfl, rfl, rfl, rfl, rfl, rfl, rfl, rfl, by simp⟩
  obtain ⟨⟨hne, hlt⟩, hrow⟩ := hrows map h
  obtain ⟨⟨row, maps⟩, hrow, hresult⟩ := exists_ok_and hrow
  obtain ⟨hlength, hextra⟩ := of_decide_eq_true hresult
  obtain ⟨himage, hbitmaps⟩ := mapPage_eq hrow hlength
  refine AllocationMaps.row_loadsAs rfl hrow
    (UsageMap.rowPage_holds hlength himage hne (hpages map h)) hlt fun n _ hn => ?_
  rcases hextra with hnone | hmembers
  · exact absurd hn (by rw [hnone]; exact Nat.not_lt_zero n)
  · rw [hmembers] at hbitmaps
    have hcount : n < (mapBitmaps 11 [1400]).length := by
      rwa [hbitmaps, List.length_map]
    have hbefore : tablesPages.length = 11 := rfl
    rw [← List.getElem?_map, ← hbitmaps, tablesFile, List.getElem?_append_right (by omega), hbefore,
      Nat.add_sub_cancel_left, List.getElem?_append_left hcount]

/-- The maps of the file. -/
def tablesMap (locator : MapRowLocator) : MapBits :=
  (MapBits.load tablesFile locator).toOption.getD ⟨locator, ⟨0, 0⟩, [], .indirect ⟨0, 0⟩, []⟩

/-- Every map loads, and lists its set. -/
theorem tablesMap_pages {map : PageNumber × List PageNumber} (h : map ∈ tablesMaps) :
    MapBits.load tablesFile { page := map.1, row := 0 } =
      .ok (tablesMap { page := map.1, row := 0 }) ∧
      (tablesMap { page := map.1, row := 0 }).pages = map.2 := by
  have hsorted : ∀ map ∈ tablesMaps, map.2.Pairwise (· < ·) := by decide
  obtain ⟨loaded, hload, hpages⟩ := (loadsAs_tablesFile h).exists_pages (hsorted map h)
  have hmap : tablesMap { page := map.1, row := 0 } = loaded := by
    rw [tablesMap, hload]
    rfl
  rw [hmap]
  exact ⟨hload, hpages⟩

/-- The owned maps of the two tables, with their available maps. -/
def tablesOwned : List (MapRowLocator × Option MapRowLocator) :=
  [({ page := 2, row := 0 }, some { page := 3, row := 0 }), ({ page := 4, row := 0 }, none),
    ({ page := 5, row := 0 }, some { page := 6, row := 0 }),
    ({ page := 7, row := 0 }, some { page := 8, row := 0 })]

/-- The two definitions of the file, with their owned maps and their pages. -/
structure TablesRead (first second : TableDefinition) : Prop where
  first_read : tableDefinition tablesFile 9 = .ok first
  second_read : tableDefinition tablesFile 10 = .ok second
  owned : [first, second].flatMap ownedMaps = tablesOwned
  pages : [first, second].flatMap TableDefinition.pages = [9, 10]

variable {first second : TableDefinition}

/-- Both definitions are decoded. -/
theorem exists_tablesRead : ∃ first second, TablesRead first second := by
  obtain ⟨first, hfirst, hfirstMaps⟩ := exists_ok_and (x := tableDefinition tablesFile 9)
    (p := fun table => decide (ownedMaps table = tablesOwned.take 3 ∧ table.pages = [9]))
    (by decide +kernel)
  obtain ⟨second, hsecond, hsecondMaps⟩ := exists_ok_and (x := tableDefinition tablesFile 10)
    (p := fun table => decide (ownedMaps table = tablesOwned.drop 3 ∧ table.pages = [10]))
    (by decide +kernel)
  obtain ⟨hfirstOwned, hfirstPages⟩ := of_decide_eq_true hfirstMaps
  obtain ⟨hsecondOwned, hsecondPages⟩ := of_decide_eq_true hsecondMaps
  refine ⟨first, second, hfirst, hsecond, ?_, ?_⟩
  · rw [List.flatMap_cons, List.flatMap_singleton, hfirstOwned, hsecondOwned]
    exact List.take_append_drop 3 tablesOwned
  · rw [List.flatMap_cons, List.flatMap_singleton, hfirstPages, hsecondPages]
    rfl

/-- The two definitions are those of the file. -/
theorem TablesRead.decoded (h : TablesRead first second) : Decoded tablesFile [first, second] := by
  intro definition hmem
  rcases List.mem_pair.mp hmem with heq | heq
  · exact ⟨9, heq ▸ h.first_read⟩
  · exact ⟨10, heq ▸ h.second_read⟩

/-- Their map rows. -/
theorem TablesRead.mapLocators (h : TablesRead first second) :
    AllocationState.mapLocators [first, second] =
      tablesMaps.map fun map => { page := map.1, row := 0 } := by
  rw [AllocationState.mapLocators, h.owned]
  rfl

/-- All of their maps load. -/
theorem TablesRead.loadedMaps (h : TablesRead first second) :
    LoadedMaps tablesFile tablesMap [first, second] := by
  intro locator hmem
  rw [h.mapLocators, List.mem_map] at hmem
  obtain ⟨map, hmap, rfl⟩ := hmem
  exact (tablesMap_pages hmap).1

/-- No page has two roles. -/
theorem TablesRead.disjointRoles (h : TablesRead first second) :
    DisjointRoles tablesMap [first, second] 1513 ∧ PageZeroReserved tablesMap [first, second] := by
  have hpages : ∀ map ∈ tablesMaps, (tablesMap { page := map.1, row := 0 }).pages = map.2 :=
    fun map hmap => (tablesMap_pages hmap).2
  simp only [tablesMaps, List.forall_mem_cons, List.not_mem_nil, false_implies, implies_true,
    and_true] at hpages
  obtain ⟨hglobal, h2, h3, h4, h5, h6, h7, h8⟩ := hpages
  have hcontent : contentPages tablesMap [first, second] = [1400, 12, 13, 14] := by
    rw [contentPages, h.owned]
    simp only [tablesOwned, List.flatMap_cons, List.flatMap_nil, h2, h4, h5, h7]
    rfl
  have hmetadata : metadataPages tablesMap [first, second] = [9, 10, 11] := by
    rw [metadataPages, h.pages, h.mapLocators]
    decide +kernel
  have hrecord : recordPages [first, second] = [1, 2, 3, 4, 5, 6, 7, 8] := by
    rw [recordPages, h.mapLocators]
    rfl
  have hfree : ∀ page, (tablesMap globalLocator).contains page = false := by
    intro page
    have hspaced := MapBits.load_spaced (h.loadedMaps globalLocator List.mem_cons_self)
    rw [← Bool.not_eq_true, hspaced.contains_iff]
    exact hglobal ▸ List.not_mem_nil
  have hapart : ∀ {pages others : List PageNumber}, (∀ page ∈ pages, page ∉ others) →
      pages.Disjoint others := fun h page hpage => h page hpage
  refine ⟨⟨?_, ?_, ?_, ?_, ?_, ?_, ?_, ?_, fun page _ => hfree page⟩, ?_, hfree 0⟩
  · rw [h.mapLocators]
    decide
  · rw [hmetadata]
    decide
  · rw [hmetadata, hrecord]
    exact hapart (by decide)
  · rw [hmetadata, hcontent]
    exact hapart (by decide)
  · rw [hrecord, hcontent]
    exact hapart (by decide)
  · -- the owned pages are those of the content, each once
    refine (List.nodup_flatMap.mp ?_).2
    show (contentPages tablesMap [first, second]).Nodup
    rw [hcontent]
    decide
  · rw [hcontent]
    decide
  · rw [h.owned]
    simp only [tablesOwned, List.forall_mem_cons, Option.mem_some_iff, forall_eq', h2, h3, h5, h6,
      h7, h8]
    simp
  · rw [hcontent]
    decide

/-- The file has a page for every page of the maps. -/
theorem length_tablesFile : tablesFile.pageCount = 1513 := by
  have hbefore : tablesPages.length = 11 := rfl
  have hbitmaps : (mapBitmaps 11 [1400]).length = 1 := by decide +kernel
  rw [tablesFile, PageFile.pageCount, List.length_append, List.length_append, List.length_cons,
    length_unusedPages, hbefore, hbitmaps]

/-- Two tables with an index, a Memo column and a bitmap page are accepted in both orders. -/
theorem validateTables_tables : ∃ first second,
    tableDefinition tablesFile 9 = .ok first ∧ tableDefinition tablesFile 10 = .ok second ∧
      (∃ state, validateTables tablesFile [first, second] = .ok state) ∧
      ∃ state, validateTables tablesFile [second, first] = .ok state := by
  obtain ⟨first, second, htables⟩ := exists_tablesRead
  have haccepts := validateTables_accepts tablesFile tablesMap [first, second]
    htables.decoded htables.loadedMaps
  have hfirst := haccepts.1.mpr (length_tablesFile ▸ htables.disjointRoles)
  exact ⟨first, second, htables.first_read, htables.second_read, hfirst,
    (haccepts.2 _ (.swap _ _ _)).mpr hfirst⟩

/-! ## A table that owns page zero -/

/-- A data page whose one row is an inline map of one byte. -/
def smallMapPage (bits : UInt8) : Page :=
  (((Block.fill pageBytes 0).write 0 [1]).write 8 [1, 0, 0xfa, 0x07]).write 2047 [bits]

/-- The definition of a table without columns, its map rows on the pages 2 and 3. -/
def smallTableBytes : List UInt8 :=
  definitionPrefix ++ leBytes 4 0 ++ leBytes 4 45 ++ List.replicate 8 0 ++ [0x4e] ++
    List.replicate 14 0 ++ [0, 2, 0, 0] ++ [0, 3, 0, 0] ++ [0xff, 0xff]

/-- A file of six pages: the global map on page 1 lists none, the owned map and the available map of
the table on page 4 list page zero. -/
def smallTableFile : PageFile :=
  [Block.fill pageBytes 0, smallMapPage 0, smallMapPage 1, smallMapPage 1,
    (Block.fill pageBytes 0).write 0 smallTableBytes, Block.fill pageBytes 0]

/-- The definition the page 4 holds. -/
def smallTable : TableDefinition :=
  { root := 4, kind := .user, logicalLength := 45, pages := [4]
    maps := { owned := { page := 2, row := 0 }, available := { page := 3, row := 0 } }
    columns := [], physicalIndexes := [], indexes := [], longValueMaps := []
    rawHeader := ⟨smallTableBytes.take definitionHeaderLen, rfl⟩, rawSuffix := [] }

/-- The definition is that of the file. -/
theorem decoded_smallTable : Decoded smallTableFile [smallTable] := by
  intro definition hmem
  rw [List.mem_singleton] at hmem
  subst hmem
  have hchain : readDefinitionChain smallTableFile 4 =
      .ok (smallTableBytes, smallTable.maps, [4]) := by
    refine readDefinitionChain_ok_iff.mpr
      ⟨(Block.fill pageBytes 0).write 0 smallTableBytes, [], [], ?_, rfl⟩
    exact
      { rootPage := ⟨rfl, by decide, by decide +kernel, by decide +kernel⟩
        rootBytes := by decide +kernel
        rootMaps := rfl
        usedPages := rfl
        terminalPages := by simp
        terminal_le := by simp
        terminal_exact := by simp
        distinct := by simp
        length_eq := by decide +kernel
        minimum_le := by decide }
  refine ⟨4, ?_⟩
  rw [tableDefinition, hchain]
  rfl

/-- The maps of the small file. -/
def smallMap (locator : MapRowLocator) : MapBits :=
  match MapBits.load smallTableFile locator with
  | .ok map => map
  | .error _ => ⟨locator, ⟨0, 0⟩, [], .indirect ⟨0, 0⟩, []⟩

/-- Its maps load. -/
theorem loadedMaps_smallTable : LoadedMaps smallTableFile smallMap [smallTable] := by
  have hlocators : mapLocators [smallTable] =
      [{ page := 1, row := 0 }, { page := 2, row := 0 }, { page := 3, row := 0 }] := rfl
  intro locator hmem
  rw [hlocators] at hmem
  simp only [List.mem_cons, List.not_mem_nil, or_false] at hmem
  rcases hmem with rfl | rfl | rfl <;> decide +kernel

/-- The roles are apart from each other, whatever the first page is used for. -/
theorem disjointRoles_smallTable : DisjointRoles smallMap [smallTable] 6 := by
  have hdisjoint : ∀ {pages others : List PageNumber}, (∀ page ∈ pages, page ∉ others) →
      pages.Disjoint others := fun hapart page hpage => hapart page hpage
  exact ⟨by decide +kernel, by decide +kernel, hdisjoint (by decide +kernel),
    hdisjoint (by decide +kernel), hdisjoint (by decide +kernel), List.pairwise_singleton _ _,
    by decide +kernel, by decide +kernel, by decide +kernel⟩

/-- A table that owns page zero is refused, although the roles of all other pages keep apart. -/
theorem validateTables_owned_zero :
    ¬∀ (file : PageFile) (loaded : MapRowLocator → MapBits) (definitions : List TableDefinition),
      Decoded file definitions → LoadedMaps file loaded definitions →
        ((∃ state, validateTables file definitions = .ok state) ↔
          DisjointRoles loaded definitions file.pageCount) := by
  intro hclaim
  have hmaps := loadedMaps_smallTable
  have haccepted := (hclaim smallTableFile smallMap [smallTable] decoded_smallTable hmaps).mpr
    disjointRoles_smallTable
  rw [validateTables_iff (hmaps globalLocator List.mem_cons_self) hmaps.load,
    sound_fileLedger_iff hmaps decoded_smallTable] at haccepted
  exact haccepted.2.not_owned (by decide +kernel)

end AllocationState

end Jet3
