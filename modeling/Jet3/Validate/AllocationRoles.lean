import Jet3.Validate.Storage

/-!
# What the validator of page roles accepts

The validator visits pages one after another and remembers them in three sets. What it has accepted
so far is a ledger: the claims on pages, the map locators, and the available maps with their owned
maps.

* `Ledger.Sound` says what a ledger has to satisfy, whatever order its claims came in;
* `Adds` says that an operation accepts exactly what keeps the ledger sound, and its rules carry
  this from one page to a whole file.
-/

namespace Jet3

open Outcome

/-! ## Claims -/

/-- What a page is claimed for. -/
inductive PageRole where
  | metadata
  | record
  | content
  deriving DecidableEq, Repr

/-- Two claims on one page go together only where both are map records. -/
def PageRole.Compatible (a b : PageRole × PageNumber) : Prop :=
  a.2 = b.2 → a.1 = .record ∧ b.1 = .record

/-- Compatibility is symmetric. -/
theorem PageRole.Compatible.symm {a b : PageRole × PageNumber} (h : Compatible a b) :
    Compatible b a :=
  fun heq => (h heq.symm).symm

/-- What a validator has met. -/
structure Ledger where
  claims : List (PageRole × PageNumber)
  locators : List MapRowLocator
  /-- The available maps, each with its owned map. -/
  available : List (MapBits × MapBits)

namespace Ledger

/-- One ledger after another. -/
def add (a b : Ledger) : Ledger :=
  { claims := a.claims ++ b.claims, locators := a.locators ++ b.locators
    available := a.available ++ b.available }

/-- No claims. -/
def empty : Ledger :=
  { claims := [], locators := [], available := [] }

/-- One claim of a page. -/
def claim (role : PageRole) (page : PageNumber) : Ledger :=
  { claims := [(role, page)], locators := [], available := [] }

/-- One use of a map row. -/
def locator (locator : MapRowLocator) : Ledger :=
  { claims := [], locators := [locator], available := [] }

/-- One pair of an owned and an available map. -/
def listed (maps : MapBits × MapBits) : Ledger :=
  { claims := [], locators := [], available := [maps] }

/-- The ledgers of a list. -/
def sum (ledgers : List Ledger) : Ledger :=
  { claims := ledgers.flatMap claims, locators := ledgers.flatMap locators
    available := ledgers.flatMap available }

theorem add_assoc (a b c : Ledger) : (a.add b).add c = a.add (b.add c) := by
  simp [add]

@[simp]
theorem add_empty (a : Ledger) : a.add empty = a := by
  simp [add, empty]

@[simp]
theorem sum_nil : sum [] = empty :=
  rfl

@[simp]
theorem sum_cons (a : Ledger) (ledgers : List Ledger) : sum (a :: ledgers) = a.add (sum ledgers) :=
  rfl

/-- A ledger in order, whatever order its entries came in. -/
structure Sound (global : MapBits) (pageCount : ℕ) (ledger : Ledger) : Prop where
  compatible : ledger.claims.Pairwise PageRole.Compatible
  allocated : ∀ claim ∈ ledger.claims, global.contains claim.2 = false
  inside : ∀ claim ∈ ledger.claims, claim.2 < pageCount
  locators_nodup : ledger.locators.Nodup
  available : ∀ maps ∈ ledger.available, ∀ page ∈ maps.1.pages,
    page < pageCount ∧ page ∈ maps.2.pages

variable {global : MapBits} {pageCount : ℕ}

theorem Sound.left {a b : Ledger} (h : (a.add b).Sound global pageCount) :
    a.Sound global pageCount where
  compatible := (List.pairwise_append.mp h.compatible).1
  allocated claim hclaim := h.allocated claim (List.mem_append_left _ hclaim)
  inside claim hclaim := h.inside claim (List.mem_append_left _ hclaim)
  locators_nodup := (List.nodup_append.mp h.locators_nodup).1
  available maps hmaps := h.available maps (List.mem_append_left _ hmaps)

/-- One more claim. -/
theorem sound_claim_iff {before : Ledger} (h : before.Sound global pageCount)
    {role : PageRole} {page : PageNumber} :
    (before.add (.claim role page)).Sound global pageCount ↔
      (∀ other ∈ before.claims, PageRole.Compatible other (role, page)) ∧
        global.contains page = false ∧ page < pageCount := by
  constructor
  · intro hsound
    refine ⟨fun other hother => ?_, hsound.allocated (role, page) (by simp [add, claim]),
      hsound.inside (role, page) (by simp [add, claim])⟩
    exact (List.pairwise_append.mp hsound.compatible).2.2 other hother _ (by simp [claim])
  · rintro ⟨hcompatible, hallocated, hinside⟩
    constructor
    · rw [add, List.pairwise_append]
      exact ⟨h.compatible, List.pairwise_singleton _ _, fun other hother claim' hclaim' => by
        rw [List.mem_singleton.mp hclaim']
        exact hcompatible other hother⟩
    · intro claim' hclaim'
      rcases List.mem_append.mp hclaim' with hold | hnew
      · exact h.allocated claim' hold
      · rw [List.mem_singleton.mp hnew]
        exact hallocated
    · intro claim' hclaim'
      rcases List.mem_append.mp hclaim' with hold | hnew
      · exact h.inside claim' hold
      · rw [List.mem_singleton.mp hnew]
        exact hinside
    · simpa [add, claim] using h.locators_nodup
    · simpa [add, claim] using h.available

/-- One more map locator. -/
theorem sound_locator_iff {before : Ledger} (h : before.Sound global pageCount)
    {locator : MapRowLocator} :
    (before.add (.locator locator)).Sound global pageCount ↔
      locator ∉ before.locators := by
  constructor
  · intro hsound hmem
    exact (List.nodup_append.mp hsound.locators_nodup).2.2 locator hmem locator
      (by simp [Ledger.locator]) rfl
  · intro hnew
    refine ⟨by simpa [add, Ledger.locator] using h.compatible, by simpa [add, Ledger.locator]
      using h.allocated,
      by simpa [add, Ledger.locator] using h.inside,
        ?_, by simpa [add, Ledger.locator] using h.available⟩
    rw [add, List.nodup_append]
    refine ⟨h.locators_nodup, List.nodup_singleton _, fun other hother locator' hlocator' => ?_⟩
    rw [List.mem_singleton.mp hlocator']
    rintro rfl
    exact hnew hother

/-- One more available map. -/
theorem sound_available_iff {before : Ledger} (h : before.Sound global pageCount)
    {maps : MapBits × MapBits} :
    (before.add (.listed maps)).Sound global pageCount ↔
      ∀ page ∈ maps.1.pages, page < pageCount ∧ page ∈ maps.2.pages := by
  constructor
  · intro hsound
    exact hsound.available maps (by simp [add, listed])
  · intro hnew
    refine ⟨by simpa [add, listed] using h.compatible, by simpa [add, listed] using h.allocated,
      by simpa [add, listed] using
        h.inside, by simpa [add, listed] using h.locators_nodup, fun maps' hmaps' => ?_⟩
    rcases List.mem_append.mp hmaps' with hold | hlast
    · exact h.available maps' hold
    · rw [List.mem_singleton.mp hlast]
      exact hnew

end Ledger

/-! ## Operations -/

namespace AllocationState

variable {file : PageFile} {global : MapBits}

/-- A state that has met what a ledger holds. -/
structure Represents (file : PageFile) (global : MapBits) (ledger : Ledger)
    (state : AllocationState) : Prop where
  global_eq : state.global = global
  content_count : state.content.pageCount = file.pageCount
  metadata_count : state.metadata.pageCount = file.pageCount
  exclusive_count : state.exclusive.pageCount = file.pageCount
  mem_content : ∀ page, page ∈ state.content.visited ↔ (.content, page) ∈ ledger.claims
  mem_exclusive : ∀ page, page ∈ state.exclusive.visited ↔ (.metadata, page) ∈ ledger.claims
  mem_metadata : ∀ page, page ∈ state.metadata.visited ↔
    (.metadata, page) ∈ ledger.claims ∨ (.record, page) ∈ ledger.claims
  maps_eq : state.maps = ledger.locators

/-- An operation that succeeds exactly where its ledger may follow what was met before, and then has
met it as well. -/
def Adds (file : PageFile) (global : MapBits)
    (operation : AllocationState → Except StorageValidationError AllocationState)
    (ledger : Ledger) :
    Prop :=
  ∀ before state, Represents file global before state → before.Sound global file.pageCount →
    ((∃ state', operation state = .ok state') ↔ (before.add ledger).Sound global file.pageCount) ∧
      ∀ state', operation state = .ok state' → Represents file global (before.add ledger) state'

theorem Adds.pure : Adds file global (fun state => .ok state) .empty := by
  intro before state hstate hsound
  rw [Ledger.add_empty]
  refine ⟨⟨fun _ => hsound, fun _ => ⟨state, rfl⟩⟩, fun state' h => ?_⟩
  cases h
  exact hstate

/-- Two operations one after the other. -/
theorem Adds.bind {first second : AllocationState → Except StorageValidationError AllocationState}
    {a b : Ledger} (hfirst : Adds file global first a) (hsecond : Adds file global second b) :
    Adds file global (fun state => first state >>= second) (a.add b) := by
  intro before state hstate hsound
  obtain ⟨hok, hnext⟩ := hfirst before state hstate hsound
  rw [← Ledger.add_assoc]
  constructor
  · simp only [bind_ok_iff]
    constructor
    · rintro ⟨state', next, hstep, hrest⟩
      have hmiddle := hok.mp ⟨next, hstep⟩
      exact (hsecond _ _ (hnext next hstep) hmiddle).1.mp ⟨state', hrest⟩
    · intro htotal
      obtain ⟨next, hstep⟩ := hok.mpr htotal.left
      obtain ⟨state', hrest⟩ := (hsecond _ _ (hnext next hstep) htotal.left).1.mpr htotal
      exact ⟨state', next, hstep, hrest⟩
  · intro state' h
    rw [bind_ok_iff] at h
    obtain ⟨next, hstep, hrest⟩ := h
    exact (hsecond _ _ (hnext next hstep) (hok.mp ⟨next, hstep⟩)).2 state' hrest

/-- A loop adds the ledgers of its items. -/
theorem Adds.foldlM {α : Type}
    {operation : AllocationState → α → Except StorageValidationError AllocationState}
    {ledger : α → Ledger} {items : List α}
    (h : ∀ item ∈ items, Adds file global (operation · item) (ledger item)) :
    Adds file global (items.foldlM operation ·) (.sum (items.map ledger)) := by
  induction items with
  | nil => exact Adds.pure
  | cons item items ih =>
    simp only [List.foldlM_cons, List.map_cons, Ledger.sum_cons]
    exact (h item List.mem_cons_self).bind
      (ih fun other hother => h other (List.mem_cons_of_mem _ hother))

/-- A check before an operation. -/
theorem Adds.guard {α : Type} {check : Except StorageValidationError α} {value : α}
    {operation : α → AllocationState → Except StorageValidationError AllocationState}
    {ledger : Ledger} (hcheck : check = .ok value) (h : Adds file global (operation value) ledger) :
    Adds file global (fun state => check >>= fun value => operation value state) ledger := by
  rw [hcheck]
  exact h

/-! ## One page -/

/-- The pages with one more marked. -/
def mark (pages : VisitedPages) (page : PageNumber) : VisitedPages :=
  { pages with visited := page :: pages.visited }

theorem contains_iff {pages : VisitedPages} {page : PageNumber} :
    pages.contains page = true ↔ page < pages.pageCount ∧ page ∈ pages.visited := by
  rw [VisitedPages.contains, decide_eq_true_eq]

@[simp]
theorem insert_ok_iff {pages : VisitedPages} {page : PageNumber} {result : Bool × VisitedPages} :
    pages.insert page = .ok result ↔ page < pages.pageCount ∧
      result = (pages.contains page, mark pages page) := by
  simp only [VisitedPages.insert, bind_ok_iff, exists_unit, refuseIf_ok_iff, not_not, pure_ok_iff]
  exact and_congr_right fun _ => eq_comm

theorem forall_compatible_iff {claims : List (PageRole × PageNumber)} {role : PageRole}
    {page : PageNumber} :
    (∀ other ∈ claims, PageRole.Compatible other (role, page)) ↔
      ∀ role', (role', page) ∈ claims → role' = .record ∧ role = .record := by
  constructor
  · intro h role' hmem
    exact h _ hmem rfl
  · rintro h ⟨role', page'⟩ hmem rfl
    exact h role' hmem

theorem metadataPage_ok_iff {state state' : AllocationState} {page : PageNumber}
    {exclusive : Bool} :
    state.metadataPage page exclusive = .ok state' ↔
      state.global.contains page = false ∧
        ¬(state.content.contains page = true ∨ state.exclusive.contains page = true ∨
          exclusive = true ∧ state.metadata.contains page = true) ∧
        page < state.metadata.pageCount ∧ (exclusive = true → page < state.exclusive.pageCount) ∧
        state' = { state with
          metadata := mark state.metadata page
          exclusive := if exclusive then mark state.exclusive page else state.exclusive } := by
  simp only [metadataPage, allocated, bind_ok_iff, exists_unit, refuseIf_ok_iff, mapError_ok_iff,
    insert_ok_iff, Prod.exists, Prod.mk.injEq, Bool.not_eq_true]
  refine and_congr_right fun _ => and_congr_right fun _ => ?_
  cases exclusive with
  | false =>
    constructor
    · rintro ⟨_, _, ⟨hinside, rfl, rfl⟩, h⟩
      cases h
      exact ⟨hinside, fun h => (by cases h), rfl⟩
    · rintro ⟨hinside, -, rfl⟩
      exact ⟨_, _, ⟨hinside, rfl, rfl⟩, rfl⟩
  | true =>
    constructor
    · rintro ⟨_, _, ⟨hinside, rfl, rfl⟩, h⟩
      simp only [if_true, bind_ok_iff, mapError_ok_iff, insert_ok_iff, Prod.exists, Prod.mk.injEq]
        at h
      obtain ⟨_, _, ⟨hexclusive, rfl, rfl⟩, h⟩ := h
      cases h
      exact ⟨hinside, fun _ => hexclusive, rfl⟩
    · rintro ⟨hinside, hexclusive, rfl⟩
      refine ⟨_, _, ⟨hinside, rfl, rfl⟩, ?_⟩
      simp only [if_true, bind_ok_iff, mapError_ok_iff, insert_ok_iff, Prod.exists, Prod.mk.injEq]
      exact ⟨_, _, ⟨hexclusive rfl, rfl, rfl⟩, rfl⟩

/-- A definition page or a bitmap page is claimed for itself, a map record for its page. -/
theorem metadataPage_adds (page : PageNumber) (exclusive : Bool) :
    Adds file global (metadataPage · page exclusive)
      (.claim (if exclusive then .metadata else .record) page) := by
  intro before state hstate hsound
  have hcontent : state.content.contains page = true ↔
      page < file.pageCount ∧ (PageRole.content, page) ∈ before.claims := by
    rw [contains_iff, hstate.content_count, hstate.mem_content]
  have hexclusive : state.exclusive.contains page = true ↔
      page < file.pageCount ∧ (PageRole.metadata, page) ∈ before.claims := by
    rw [contains_iff, hstate.exclusive_count, hstate.mem_exclusive]
  have hmetadata : state.metadata.contains page = true ↔ page < file.pageCount ∧
      ((PageRole.metadata, page) ∈ before.claims ∨ (PageRole.record, page) ∈ before.claims) := by
    rw [contains_iff, hstate.metadata_count, hstate.mem_metadata]
  rw [Ledger.sound_claim_iff hsound, forall_compatible_iff]
  refine ⟨?_, fun state' h => ?_⟩
  · simp only [metadataPage_ok_iff, hcontent, hexclusive, hmetadata, hstate.global_eq,
      hstate.metadata_count, hstate.exclusive_count]
    constructor
    · rintro ⟨_, hfree, hroles, hinside, -, -⟩
      refine ⟨fun role hrole => ?_, hfree, hinside⟩
      -- only a map record may stand beside a map record
      cases role with
      | content => exact absurd (.inl ⟨hinside, hrole⟩) hroles
      | metadata => exact absurd (.inr (.inl ⟨hinside, hrole⟩)) hroles
      | record =>
        cases exclusive with
        | false => exact ⟨rfl, rfl⟩
        | true => exact absurd (.inr (.inr ⟨rfl, hinside, .inr hrole⟩)) hroles
    · rintro ⟨hroles, hfree, hinside⟩
      refine ⟨_, hfree, ?_, hinside, fun _ => hinside, rfl⟩
      rintro (⟨-, hrole⟩ | ⟨-, hrole⟩ | ⟨rfl, -, hrole | hrole⟩)
      · cases (hroles _ hrole).1
      · cases (hroles _ hrole).1
      · cases (hroles _ hrole).1
      · cases (hroles _ hrole).2
  · obtain ⟨-, -, -, -, rfl⟩ := metadataPage_ok_iff.mp h
    cases exclusive with
    | false =>
      exact { hstate with
        mem_content := fun other => by simp [Ledger.add, Ledger.claim, hstate.mem_content]
        mem_exclusive := fun other => by simp [Ledger.add, Ledger.claim, hstate.mem_exclusive]
        mem_metadata := fun other => by
          simp only [mark, Ledger.add, Ledger.claim, List.mem_append, List.mem_cons,
            hstate.mem_metadata]
          simp
          rw [or_comm, or_assoc]
        maps_eq := by simp [Ledger.add, Ledger.claim, hstate.maps_eq] }
    | true =>
      exact { hstate with
        mem_content := fun other => by simp [Ledger.add, Ledger.claim, hstate.mem_content]
        mem_exclusive := fun other => by
          simp [mark, Ledger.add, Ledger.claim, hstate.mem_exclusive, or_comm]
        mem_metadata := fun other => by
          simp only [mark, Ledger.add, Ledger.claim, List.mem_append, List.mem_cons,
            hstate.mem_metadata]
          simp
          rw [← or_assoc, or_comm (a := other = page)]
        maps_eq := by simp [Ledger.add, Ledger.claim, hstate.maps_eq] }

/-- A page of an owned map is claimed for its content. -/
theorem contentPage_adds (page : PageNumber) :
    Adds file global (contentPage · page) (.claim .content page) := by
  intro before state hstate hsound
  -- the bitmaps of the state say which roles a page has
  have hcontent : state.content.contains page = true ↔
      page < file.pageCount ∧ (PageRole.content, page) ∈ before.claims := by
    rw [contains_iff, hstate.content_count, hstate.mem_content]
  have hmetadata : state.metadata.contains page = true ↔ page < file.pageCount ∧
      ((PageRole.metadata, page) ∈ before.claims ∨ (PageRole.record, page) ∈ before.claims) := by
    rw [contains_iff, hstate.metadata_count, hstate.mem_metadata]
  rw [Ledger.sound_claim_iff hsound, forall_compatible_iff]
  -- what the step checks and what it marks
  have hok : ∀ state', state.contentPage page = .ok state' ↔
      global.contains page = false ∧ ¬state.metadata.contains page = true ∧
        page < file.pageCount ∧ ¬state.content.contains page = true ∧
        state' = { state with content := mark state.content page } := by
    intro state'
    simp only [contentPage, allocated, bind_ok_iff, exists_unit, refuseIf_ok_iff, mapError_ok_iff,
      insert_ok_iff, Prod.exists, Prod.mk.injEq, pure_ok_iff, hstate.global_eq,
      hstate.content_count, Bool.not_eq_true]
    refine and_congr_right fun _ => and_congr_right fun _ => ?_
    constructor
    · rintro ⟨_, _, ⟨hinside, rfl, rfl⟩, hnew, rfl⟩
      exact ⟨hinside, hnew, rfl⟩
    · rintro ⟨hinside, hnew, rfl⟩
      exact ⟨_, _, ⟨hinside, rfl, rfl⟩, hnew, rfl⟩
  refine ⟨?_, fun state' h => ?_⟩
  · simp only [hok, hcontent, hmetadata]
    constructor
    · rintro ⟨_, hfree, hroles, hinside, hnew, -⟩
      refine ⟨fun role hrole => ?_, hfree, hinside⟩
      cases role with
      | content => exact absurd ⟨hinside, hrole⟩ hnew
      | metadata => exact absurd ⟨hinside, .inl hrole⟩ hroles
      | record => exact absurd ⟨hinside, .inr hrole⟩ hroles
    · rintro ⟨hroles, hfree, hinside⟩
      refine ⟨_, hfree, ?_, hinside, ?_, rfl⟩
      · rintro ⟨-, hrole | hrole⟩
        · cases (hroles _ hrole).1
        · cases (hroles _ hrole).2
      · rintro ⟨-, hrole⟩
        cases (hroles _ hrole).1
  · obtain ⟨-, -, -, -, rfl⟩ := (hok state').mp h
    exact { hstate with
      mem_content := fun other => by
        simp [mark, Ledger.add, Ledger.claim, hstate.mem_content, or_comm]
      mem_exclusive := fun other => by simp [Ledger.add, Ledger.claim, hstate.mem_exclusive]
      mem_metadata := fun other => by simp [Ledger.add, Ledger.claim, hstate.mem_metadata]
      maps_eq := by simp [Ledger.add, Ledger.claim, hstate.maps_eq] }

/-! ## One map -/

/-- What the registration of a map claims. -/
def mapLedger (map : MapBits) : Ledger :=
  (Ledger.locator map.locator).add ((Ledger.claim .record map.locator.page).add
    (.sum ((bitmapPages map).map (.claim .metadata))))

/-- A map record belongs to one role. -/
def noteLocator (state : AllocationState) (locator : MapRowLocator) :
    Except StorageValidationError AllocationState := do
  refuseIf (locator ∈ state.maps) (.page locator.page "allocation map shared between roles")
  return { state with maps := state.maps ++ [locator] }

theorem noteLocator_adds (locator : MapRowLocator) :
    Adds file global (noteLocator · locator) (.locator locator) := by
  intro before state hstate hsound
  have hok : ∀ state', state.noteLocator locator = .ok state' ↔
      locator ∉ before.locators ∧ { state with maps := state.maps ++ [locator] } = state' := by
    intro state'
    simp only [noteLocator, bind_ok_iff, exists_unit, refuseIf_ok_iff, pure_ok_iff, hstate.maps_eq]
  rw [Ledger.sound_locator_iff hsound]
  refine ⟨by simp [hok], fun state' h => ?_⟩
  obtain ⟨-, rfl⟩ := (hok state').mp h
  exact { hstate with
    mem_content := fun other => by simp [Ledger.add, Ledger.locator, hstate.mem_content]
    mem_exclusive := fun other => by simp [Ledger.add, Ledger.locator, hstate.mem_exclusive]
    mem_metadata := fun other => by simp [Ledger.add, Ledger.locator, hstate.mem_metadata]
    maps_eq := by simp [Ledger.add, Ledger.locator, hstate.maps_eq] }

theorem registerMap_eq (state : AllocationState) (map : MapBits) :
    state.registerMap map = state.noteLocator map.locator >>= fun state =>
      state.metadataPage map.locator.page false >>= fun state =>
        (bitmapPages map).foldlM (metadataPage · · true) state := by
  simp only [registerMap, noteLocator, bind_assoc, pure_bind]

theorem registerMap_adds (map : MapBits) :
    Adds file global (registerMap · map) (mapLedger map) := by
  simp only [registerMap_eq]
  exact (noteLocator_adds map.locator).bind ((metadataPage_adds map.locator.page false).bind
    (Adds.foldlM fun page _ => metadataPage_adds page true))

/-! ## Owned and available maps -/

theorem loadMap_ok_iff {locator : MapRowLocator} {map : MapBits} :
    loadMap file locator = .ok map ↔ MapBits.load file locator = .ok map := by
  rw [loadMap, mapError_ok_iff]

/-- A loaded map is listed exactly where its pages are inside the file. -/
theorem members_ok_iff {locator : MapRowLocator} {map : MapBits} {pages : List PageNumber}
    (h : MapBits.load file locator = .ok map) :
    members map file.pageCount = .ok pages ↔
      (∀ page ∈ map.pages, page < file.pageCount) ∧ pages = map.pages := by
  rw [members, mapError_ok_iff, MapBits.existingPages_ok_iff]
  constructor
  · rintro ⟨hinside, rfl⟩
    have hall : ∀ page ∈ map.pages, page < file.pageCount :=
      fun page hpage => (hinside page hpage).2 rfl
    exact ⟨hall, List.filter_eq_self.mpr fun page hpage => decide_eq_true (hall page hpage)⟩
  · rintro ⟨hall, rfl⟩
    refine ⟨fun page hpage => ⟨MapBits.load_lt h page hpage, fun _ => hall page hpage⟩, ?_⟩
    exact (List.filter_eq_self.mpr fun page hpage => decide_eq_true (hall page hpage)).symm

/-- A check that succeeds where a later operation can. -/
theorem Adds.check {α : Type} {check : Except StorageValidationError α} {P : Prop} {value : α}
    (operation : α → AllocationState → Except StorageValidationError AllocationState)
    {ledger : Ledger} (hcheck : ∀ result, check = .ok result ↔ P ∧ result = value)
    (hneeded : ∀ before : Ledger, (before.add ledger).Sound global file.pageCount → P)
    (h : P → Adds file global (operation value) ledger) :
    Adds file global (fun state => check >>= fun result => operation result state) ledger := by
  by_cases hP : P
  · exact Adds.guard ((hcheck value).mpr ⟨hP, rfl⟩) (h hP)
  · intro before state hstate hsound
    have hfails : ∀ state', ¬(check >>= fun result => operation result state) = .ok state' := by
      intro state' hok
      obtain ⟨result, hresult, -⟩ := bind_ok_iff.mp hok
      exact hP ((hcheck result).mp hresult).1
    refine ⟨⟨fun ⟨state', hok⟩ => absurd hok (hfails state'), fun hafter => ?_⟩,
      fun state' hok => absurd hok (hfails state')⟩
    exact absurd (hneeded before hafter) hP

/-- An available map that lists owned pages only is noted without an operation. -/
theorem listed_adds {maps : MapBits × MapBits}
    (h : ∀ page ∈ maps.1.pages, page < file.pageCount ∧ page ∈ maps.2.pages) :
    Adds file global (fun state => .ok state) (.listed maps) := by
  intro before state hstate hsound
  rw [Ledger.sound_available_iff hsound]
  refine ⟨⟨fun _ => h, fun _ => ⟨state, rfl⟩⟩, fun state' hok => ?_⟩
  cases hok
  exact { hstate with
    mem_content := fun other => by simp [Ledger.add, Ledger.listed, hstate.mem_content]
    mem_exclusive := fun other => by simp [Ledger.add, Ledger.listed, hstate.mem_exclusive]
    mem_metadata := fun other => by simp [Ledger.add, Ledger.listed, hstate.mem_metadata]
    maps_eq := by simp [Ledger.add, Ledger.listed, hstate.maps_eq] }

/-- The pages of an available map are compared with the owned map. -/
theorem availablePages_adds {available owned : MapBits} {locator : MapRowLocator}
    (havailable : MapBits.load file locator = .ok available) (howned : owned.Spaced) :
    Adds file global
      (fun state => members available file.pageCount >>= fun pages =>
        (forM pages fun page =>
          refuseIf (owned.contains page = false) (.page page "available page is not owned")) >>=
          fun _ => pure state) (.listed (available, owned)) := by
  have hcheck : ∀ result : PUnit, (forM available.pages fun page =>
        refuseIf (owned.contains page = false)
          (StorageValidationError.page page "available page is not owned")) = .ok result ↔
      (∀ page ∈ available.pages, page ∈ owned.pages) ∧ result = ⟨⟩ := by
    intro result
    simp only [forM_ok_iff, refuseIf_ok_iff, Bool.not_eq_false, howned.contains_iff, and_true]
  have hneeded : ∀ before : Ledger,
      (before.add (.listed (available, owned))).Sound global file.pageCount →
        ∀ page ∈ available.pages, page < file.pageCount ∧ page ∈ owned.pages :=
    fun before hsound => hsound.available _ (List.mem_append_right _ (List.mem_singleton_self _))
  refine Adds.check _ (fun result => members_ok_iff havailable)
    (fun before hsound page hpage => (hneeded before hsound page hpage).1) fun hinside => ?_
  refine Adds.check (fun _ state => pure state) hcheck
    (fun before hsound page hpage => (hneeded before hsound page hpage).2) fun hsubset => ?_
  exact listed_adds fun page hpage => ⟨hinside page hpage, hsubset page hpage⟩

theorem availableMap_adds {available owned : MapBits} {locator : MapRowLocator}
    (havailable : MapBits.load file locator = .ok available) (howned : owned.Spaced) :
    Adds file global (availableMap · file owned locator)
      ((mapLedger available).add (.listed (available, owned))) := by
  simp only [availableMap]
  exact Adds.guard (loadMap_ok_iff.mpr havailable)
    ((registerMap_adds available).bind (availablePages_adds havailable howned))

/-- What an owned map claims, with its available map. -/
def ownedLedger (loaded : MapRowLocator → MapBits) (maps : MapRowLocator × Option MapRowLocator) :
    Ledger :=
  (mapLedger (loaded maps.1)).add ((Ledger.sum ((loaded maps.1).pages.map (.claim .content))).add
    (match maps.2 with
    | none => .empty
    | some locator => (mapLedger (loaded locator)).add (.listed (loaded locator, loaded maps.1))))

variable {loaded : MapRowLocator → MapBits}

/-- The locators of an owned map and its available map. -/
def locatorsOf (maps : MapRowLocator × Option MapRowLocator) : List MapRowLocator :=
  maps.1 :: maps.2.toList

theorem owned_adds {maps : MapRowLocator × Option MapRowLocator}
    (hloaded : ∀ locator ∈ locatorsOf maps, MapBits.load file locator = .ok (loaded locator)) :
    Adds file global (owned · file maps) (ownedLedger loaded maps) := by
  have howned := hloaded maps.1 List.mem_cons_self
  simp only [owned]
  refine Adds.guard (loadMap_ok_iff.mpr howned) ((registerMap_adds _).bind ?_)
  refine Adds.check _ (fun result => members_ok_iff howned) (fun before hsound page hpage => ?_)
    fun _ => (Adds.foldlM fun page _ => contentPage_adds page).bind ?_
  · refine hsound.inside (.content, page) (List.mem_append_right _ (List.mem_append_left _ ?_))
    exact List.mem_flatMap.mpr ⟨.claim .content page, List.mem_map_of_mem hpage,
      List.mem_singleton_self _⟩
  · obtain ⟨locator, _ | available⟩ := maps
    · exact Adds.pure
    · exact availableMap_adds (hloaded available (by simp [locatorsOf]))
        (MapBits.load_spaced howned)

/-! ## A file -/

/-- What a table claims. -/
def tableLedger (loaded : MapRowLocator → MapBits) (definition : TableDefinition) : Ledger :=
  (Ledger.sum (definition.pages.map (.claim .metadata))).add
    (.sum ((ownedMaps definition).map (ownedLedger loaded)))

theorem table_adds {definition : TableDefinition}
    (hloaded : ∀ maps ∈ ownedMaps definition, ∀ locator ∈ locatorsOf maps,
      MapBits.load file locator = .ok (loaded locator)) :
    Adds file global (table · file definition) (tableLedger loaded definition) := by
  simp only [table]
  exact (Adds.foldlM fun page _ => metadataPage_adds page true).bind
    (Adds.foldlM fun maps hmaps => owned_adds (hloaded maps hmaps))

/-- What a file claims: page zero, the global map and the tables. -/
def fileLedger (loaded : MapRowLocator → MapBits) (definitions : List TableDefinition) : Ledger :=
  ((Ledger.claim .metadata 0).add (mapLedger (loaded globalLocator))).add
    (.sum (definitions.map (tableLedger loaded)))

theorem represents_empty (global : MapBits) : Represents file global .empty
    { global, content := .new file.pageCount, metadata := .new file.pageCount
      exclusive := .new file.pageCount, maps := [] } where
  global_eq := rfl
  content_count := rfl
  metadata_count := rfl
  exclusive_count := rfl
  mem_content _ := by simp [Ledger.empty, VisitedPages.new]
  mem_exclusive _ := by simp [Ledger.empty, VisitedPages.new]
  mem_metadata _ := by simp [Ledger.empty, VisitedPages.new]
  maps_eq := rfl

theorem sound_empty (global : MapBits) (pageCount : ℕ) : Ledger.empty.Sound global pageCount := by
  constructor <;> simp [Ledger.empty]

/-- The validator accepts a file exactly where its ledger is sound. -/
theorem validateTables_iff {definitions : List TableDefinition}
    (hglobal : MapBits.load file globalLocator = .ok (loaded globalLocator))
    (hloaded : ∀ definition ∈ definitions, ∀ maps ∈ ownedMaps definition,
      ∀ locator ∈ locatorsOf maps, MapBits.load file locator = .ok (loaded locator)) :
    (∃ state, validateTables file definitions = .ok state) ↔
      (fileLedger loaded definitions).Sound (loaded globalLocator) file.pageCount := by
  have hadds : Adds file (loaded globalLocator)
      (fun state => (state.metadataPage 0 true >>= fun state =>
        state.registerMap (loaded globalLocator)) >>= fun state =>
          definitions.foldlM (table · file ·) state) (fileLedger loaded definitions) :=
    ((metadataPage_adds 0 true).bind (registerMap_adds _)).bind
      (Adds.foldlM fun definition hmem => table_adds (hloaded definition hmem))
  -- the global map is loaded once more by its own locator
  have hread := loadMap_ok_iff.mpr hglobal
  have hagain : ∀ state, metadataPage
      { global := loaded globalLocator, content := .new file.pageCount
        metadata := .new file.pageCount, exclusive := .new file.pageCount, maps := [] } 0 true =
      .ok state → loadMap file state.global.locator = .ok (loaded globalLocator) := by
    intro state hstate
    obtain ⟨-, -, -, -, rfl⟩ := metadataPage_ok_iff.mp hstate
    rw [MapBits.load_locator hglobal, hread]
  have hok := (hadds .empty _ (represents_empty _) (sound_empty _ _)).1
  rw [show Ledger.empty.add (fileLedger loaded definitions) =
    fileLedger loaded definitions from rfl]
    at hok
  rw [← hok]
  simp only [validateTables, new, hread, bind_ok_iff]
  constructor
  · rintro ⟨state, state', ⟨_, hfirst, middle, hpage, map, hmap, hregister⟩, hrest⟩
    cases hfirst
    rw [hagain middle hpage] at hmap
    cases hmap
    exact ⟨state, state', ⟨middle, hpage, hregister⟩, hrest⟩
  · rintro ⟨state, state', ⟨middle, hpage, hregister⟩, hrest⟩
    exact ⟨state, state', ⟨_, rfl, middle, hpage, _, hagain middle hpage, hregister⟩, hrest⟩

end AllocationState

end Jet3
