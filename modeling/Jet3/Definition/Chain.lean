import Jet3.Definition.TablePages
import Mathlib.Data.List.Perm.Subperm

/-!
# What a definition chain is

* `Continues` says that pages hold a payload one piece after another, and `DefinitionChain` that a
  root, its continuations and an empty terminal page hold a definition;
* `readDefinitionChain_ok_iff` says that the reader accepts exactly these chains.
-/

namespace Jet3

open Outcome

/-- A page of a definition chain: in the file, not page zero, with the definition prefix and the
link `next`. -/
structure DefinitionPage (file : PageFile) (number : PageNumber) (page : Page) (next : PageNumber) :
    Prop where
  stored : file[number]? = some page
  nonzero : number ≠ 0
  header : page.slice 0 4 = definitionPrefix
  next_eq : nextPage page = next

/-- Pages that continue a chain: each holds the next piece of the payload and links to the one after
it, and the last links to `last`. -/
def Continues (file : PageFile) (last : PageNumber) : List PageNumber → List UInt8 → Prop
  | [], payload => payload = []
  | number :: rest, payload =>
    payload ≠ [] ∧
      (∃ page, DefinitionPage file number page (rest.headD last) ∧
        page.slice continuationPayloadOffset
          (continuationPayloadOffset + min payload.length continuationCapacity) =
            payload.take continuationCapacity) ∧
      Continues file last rest (payload.drop continuationCapacity)

/-- A page of a definition is classified as one. -/
theorem DefinitionPage.kind {file : PageFile} {number next : PageNumber} {page : Page}
    (h : DefinitionPage file number page next) : classifyPage number page = .tableDefinition := by
  rw [classifyPage_eq_iff h.nonzero (by simp) (by simp)]
  have hfirst := congrArg (fun bytes : List UInt8 => bytes.getD 0 0) h.header
  rwa [Block.getD_slice page (by omega)] at hfirst

/-- A page is followed exactly when it is a page of the file of the expected kind that was not
followed before. -/
theorem PageChainWalker.follow_ok_iff {walker walker' : PageChainWalker} {file : PageFile}
    {page : PageNumber} {expected : PageKind} {classified : ClassifiedPage} :
    walker.follow file page expected = .ok (classified, walker') ↔
      ∃ raw, file[page]? = some raw ∧ classifyPage page raw = expected ∧ page ∉ walker.visited ∧
        classified = { number := page, kind := expected, raw } ∧
        walker' = { visited := page :: walker.visited } := by
  simp only [follow, bind_ok_iff, mapError_ok_iff, exists_unit, validateReference, refuseIf_ok_iff,
    not_not, PageFile.readClassifiedPage_ok_iff, ne_eq, pure_ok_iff, Prod.mk.injEq]
  constructor
  · rintro ⟨-, _, ⟨raw, hraw, rfl⟩, hkind, hnew, rfl, rfl⟩
    exact ⟨raw, hraw, hkind, hnew, by rw [← hkind], rfl⟩
  · rintro ⟨raw, hraw, hkind, hnew, rfl, rfl⟩
    obtain ⟨hlt, -⟩ := List.getElem?_eq_some_iff.mp hraw
    exact ⟨hlt, _, ⟨raw, hraw, rfl⟩, hkind, hnew, by rw [hkind], rfl⟩

namespace ChainRead

/-- A link is followed exactly when it names a page of the chain that was not followed before. -/
theorem advance_ok_iff {file : PageFile} {chain chain' : ChainRead} {count : ℕ} :
    chain.advance file count = .ok chain' ↔
      ∃ page link, DefinitionPage file chain.next page link ∧ chain.next ∉ chain.walker.visited ∧
        chain' =
          { bytes := chain.bytes ++
              page.slice continuationPayloadOffset (continuationPayloadOffset + count)
            pages := chain.pages ++ [chain.next], current := chain.next, next := link
            walker := { visited := chain.next :: chain.walker.visited } } := by
  simp only [advance, bind_ok_iff, mapError_ok_iff, Prod.exists, PageChainWalker.follow_ok_iff,
    validatePrefix, refuseIf_ok_iff, exists_unit, not_not, ne_eq, pure_ok_iff]
  constructor
  · rintro ⟨_, _, ⟨page, hpage, hkind, hnew, rfl, rfl⟩, hheader, rfl⟩
    have hnonzero := ne_zero_of_classifyPage (by simp) (by simp) hkind
    exact ⟨page, _, ⟨hpage, hnonzero, hheader, rfl⟩, hnew, rfl⟩
  · rintro ⟨page, link, hpage, hnew, rfl⟩
    refine ⟨_, _, ⟨page, hpage.stored, hpage.kind, hnew, rfl, rfl⟩, hpage.header, ?_⟩
    rw [hpage.next_eq]

/-- Continuations are read exactly when the links name pages that hold the payload. -/
theorem readContinuations_ok_iff {file : PageFile} {chain chain' : ChainRead} {remaining : ℕ} :
    chain.readContinuations file remaining = .ok chain' ↔
      ∃ used payload link, payload.length = remaining ∧ chain.next = used.headD link ∧
        Continues file link used payload ∧ used.Nodup ∧
        (∀ number ∈ used, number ∉ chain.walker.visited) ∧
        chain' =
          { bytes := chain.bytes ++ payload, pages := chain.pages ++ used
            current := used.getLastD chain.current, next := link
            walker := { visited := used.reverse ++ chain.walker.visited } } := by
  induction remaining using Nat.strong_induction_on generalizing chain with
  | _ remaining ih =>
    unfold readContinuations
    by_cases hzero : remaining = 0
    · -- nothing is left to read, so no page is followed
      rw [if_pos hzero, Except.ok.injEq]
      constructor
      · rintro rfl
        exact ⟨[], [], _, hzero.symm, rfl, rfl, List.nodup_nil, by simp, by simp⟩
      · rintro ⟨used, payload, link, hlen, hnext, hused, -, -, rfl⟩
        rw [hzero, List.length_eq_zero_iff] at hlen
        cases used with
        | nil =>
          have hlink : chain.next = link := hnext
          rw [hlen, ← hlink]
          simp only [List.append_nil, List.getLastD_nil, List.reverse_nil, List.nil_append]
        | cons number rest => exact absurd hlen hused.1
    · have hless : remaining - min remaining continuationCapacity < remaining := by
        have : 0 < continuationCapacity := by decide
        omega
      rw [if_neg hzero]
      simp only [bind_ok_iff, exists_unit, refuseIf_ok_iff, advance_ok_iff, ih _ hless]
      constructor
      · rintro ⟨hnext, _, ⟨page, _, hpage, hnew, rfl⟩, used, payload, link, hlen, rfl, hused,
          hnodup, hvisited, rfl⟩
        have hcount := page.length_slice continuationPayloadOffset
          (continuationPayloadOffset + min remaining continuationCapacity)
        rw [Nat.add_sub_cancel_left] at hcount
        obtain ⟨htake, hdrop⟩ := @take_drop_piece _ payload continuationCapacity
          (by rw [hcount, hlen]; omega)
        have hlength : (page.slice continuationPayloadOffset (continuationPayloadOffset +
            min remaining continuationCapacity) ++ payload).length = remaining := by
          rw [List.length_append, hcount, hlen]
          omega
        refine ⟨chain.next :: used, _, link, hlength, rfl, ⟨?_, ⟨page, hpage, ?_⟩, ?_⟩, ?_, ?_, ?_⟩
        · exact List.ne_nil_of_length_pos (by omega)
        · rw [hlength, htake]
        · rwa [hdrop]
        · exact List.nodup_cons.mpr ⟨fun hmem => hvisited _ hmem List.mem_cons_self, hnodup⟩
        · intro number hnumber
          rcases List.mem_cons.mp hnumber with rfl | hrest
          · exact hnew
          · exact fun hmem => hvisited number hrest (List.mem_cons_of_mem _ hmem)
        · simp only [List.append_assoc, List.singleton_append, List.getLastD_cons,
            List.reverse_cons]
      · rintro ⟨used, payload, link, hlen, hhead, hused, hnodup, hvisited, rfl⟩
        cases used with
        | nil =>
          rw [hused, List.length_nil] at hlen
          exact absurd hlen.symm hzero
        | cons number rest =>
          obtain ⟨hpayload, ⟨page, hpage, hpiece⟩, hrest⟩ := hused
          rw [List.headD_cons] at hhead
          rw [List.nodup_cons] at hnodup
          rw [hlen] at hpiece
          refine ⟨hhead ▸ hpage.nonzero, _,
            ⟨page, _, hhead ▸ hpage, hhead ▸ hvisited number List.mem_cons_self, rfl⟩, rest,
            payload.drop continuationCapacity, link, ?_, rfl, hrest, hnodup.2, ?_, ?_⟩
          · rw [List.length_drop, hlen]
            omega
          · intro other hother hmem
            rcases List.mem_cons.mp hmem with rfl | hold
            · exact hnodup.1 (hhead ▸ hother)
            · exact hvisited other (List.mem_cons_of_mem _ hother) hold
          · rw [hpiece, hhead]
            simp only [List.append_assoc, List.singleton_append, List.getLastD_cons,
              List.reverse_cons, List.take_append_drop]

/-- An empty terminal page is followed exactly when there is a link and the payload ends at a page
boundary. -/
theorem readTerminal_ok_iff {file : PageFile} {chain chain' : ChainRead} {length : ℕ} :
    chain.readTerminal file length = .ok chain' ∧ chain'.next = 0 ↔
      ∃ terminal, chain.next = terminal.headD 0 ∧
        (terminal ≠ [] → pageBytes ≤ length ∧ (length - pageBytes) % continuationCapacity = 0) ∧
        terminal.length ≤ 1 ∧
        (∀ number ∈ terminal, number ∉ chain.walker.visited ∧
          ∃ page, DefinitionPage file number page 0) ∧
        chain' =
          { bytes := chain.bytes, pages := chain.pages ++ terminal
            current := terminal.getLastD chain.current, next := 0
            walker := { visited := terminal.reverse ++ chain.walker.visited } } := by
  unfold readTerminal
  split
  -- a page that is full may have one more behind it
  next hterminal =>
    rw [advance_ok_iff]
    constructor
    · rintro ⟨⟨page, link, hpage, hnew, rfl⟩, rfl⟩
      refine ⟨[chain.next], rfl, fun _ => hterminal.2, le_refl _, ?_, ?_⟩
      · intro number hnumber
        rw [List.mem_singleton.mp hnumber]
        exact ⟨hnew, page, hpage⟩
      · simp [Block.slice]
    · rintro ⟨terminal, hhead, -, hle, hpages, rfl⟩
      rcases terminal with _ | ⟨number, _ | ⟨other, rest⟩⟩
      · exact absurd hhead hterminal.1
      · obtain ⟨hnew, page, hpage⟩ := hpages number List.mem_cons_self
        rw [List.headD_cons] at hhead
        refine ⟨⟨page, 0, hhead ▸ hpage, hhead ▸ hnew, ?_⟩, rfl⟩
        simp [Block.slice, hhead]
      · simp at hle
  -- otherwise the chain has to end here
  next hterminal =>
    rw [Except.ok.injEq]
    constructor
    · rintro ⟨rfl, hnext⟩
      refine ⟨[], hnext, by simp, by simp, by simp, ?_⟩
      simp [← hnext]
    · rintro ⟨terminal, hhead, hexact, hle, hpages, rfl⟩
      rcases terminal with _ | ⟨number, _ | ⟨other, rest⟩⟩
      · have hnext : chain.next = 0 := hhead
        refine ⟨?_, rfl⟩
        simp [← hnext]
      · obtain ⟨-, page, hpage⟩ := hpages number List.mem_cons_self
        exact absurd ⟨hhead ▸ hpage.nonzero, hexact (by simp)⟩ hterminal
      · simp at hle

end ChainRead

/-- A chain of definition pages that holds `bytes`: the root, the pages that continue it, and the
empty terminal page an exact payload boundary may retain. -/
structure DefinitionChain (file : PageFile) (root : PageNumber) (first : Page)
    (used terminal : List PageNumber) (bytes : List UInt8) (maps : TableMapLocations) : Prop where
  rootPage : DefinitionPage file root first ((used ++ terminal).headD 0)
  rootBytes : first.slice 0 (min bytes.length pageBytes) = bytes.take pageBytes
  rootMaps : locateTableMaps file.pageCount
    { number := root, kind := .tableDefinition, raw := first } = .ok maps
  usedPages : Continues file (terminal.headD 0) used (bytes.drop pageBytes)
  terminalPages : ∀ number ∈ terminal, ∃ page, DefinitionPage file number page 0
  terminal_le : terminal.length ≤ 1
  terminal_exact : terminal ≠ [] →
    pageBytes ≤ bytes.length ∧ (bytes.length - pageBytes) % continuationCapacity = 0
  distinct : (root :: (used ++ terminal)).Nodup
  length_eq : u32At first 8 = bytes.length
  minimum_le : definitionHeaderLen + terminatorLen ≤ bytes.length

/-- The pages of a chain are pages of the file. -/
theorem Continues.stored {file : PageFile} {last : PageNumber} {used : List PageNumber}
    {payload : List UInt8} (h : Continues file last used payload) :
    ∀ number ∈ used, number ≠ 0 ∧ number < file.pageCount := by
  induction used generalizing payload with
  | nil => simp
  | cons number rest ih =>
    obtain ⟨-, ⟨page, hpage, -⟩, hrest⟩ := h
    obtain ⟨hlt, -⟩ := List.getElem?_eq_some_iff.mp hpage.stored
    exact List.forall_mem_cons.mpr ⟨⟨hpage.nonzero, hlt⟩, ih hrest⟩

/-- Where a chain is entered by a link, all its pages fit one. -/
theorem Continues.link_lt {file : PageFile} {last : PageNumber} {used : List PageNumber}
    {payload : List UInt8} (h : Continues file last used payload)
    (hhead : used.headD last < 2 ^ 32) :
    (∀ number ∈ used, number < 2 ^ 32) ∧ last < 2 ^ 32 := by
  induction used generalizing payload with
  | nil => exact ⟨by simp, hhead⟩
  | cons number rest ih =>
    obtain ⟨-, ⟨page, hpage, -⟩, hrest⟩ := h
    have hnext : rest.headD last < 2 ^ 32 := hpage.next_eq ▸ page.le_lt 4 4
    obtain ⟨hall, hlast⟩ := ih hrest hnext
    exact ⟨List.forall_mem_cons.mpr ⟨hhead, hall⟩, hlast⟩

/-- The pages of a chain have room for its payload. -/
theorem Continues.length_le {file : PageFile} {last : PageNumber} {used : List PageNumber}
    {payload : List UInt8} (h : Continues file last used payload) :
    payload.length ≤ used.length * continuationCapacity := by
  induction used generalizing payload with
  | nil => simp [show payload = [] from h]
  | cons number rest ih =>
    obtain ⟨-, -, hrest⟩ := h
    have hle := ih hrest
    rw [List.length_drop] at hle
    rw [List.length_cons, Nat.succ_mul]
    omega

namespace DefinitionChain

variable {file : PageFile} {root : PageNumber} {first : Page} {used terminal : List PageNumber}
  {bytes : List UInt8} {maps : TableMapLocations}

/-- All pages of the definition are pages of the file. -/
theorem stored (h : DefinitionChain file root first used terminal bytes maps) :
    ∀ number ∈ root :: (used ++ terminal), number ≠ 0 ∧ number < file.pageCount := by
  intro number hnumber
  rcases List.mem_cons.mp hnumber with rfl | hrest
  · obtain ⟨hlt, -⟩ := List.getElem?_eq_some_iff.mp h.rootPage.stored
    exact ⟨h.rootPage.nonzero, hlt⟩
  · rcases List.mem_append.mp hrest with hused | hterminal
    · exact h.usedPages.stored number hused
    · obtain ⟨page, hpage⟩ := h.terminalPages number hterminal
      obtain ⟨hlt, -⟩ := List.getElem?_eq_some_iff.mp hpage.stored
      exact ⟨hpage.nonzero, hlt⟩

/-- Every page but the root is entered by a link. -/
theorem link_lt (h : DefinitionChain file root first used terminal bytes maps) :
    ∀ number ∈ used ++ terminal, number < 2 ^ 32 := by
  have hhead : used.headD (terminal.headD 0) < 2 ^ 32 := by
    have hlink : (used ++ terminal).headD 0 < 2 ^ 32 := h.rootPage.next_eq ▸ first.le_lt 4 4
    cases used with
    | nil => exact hlink
    | cons number rest => exact hlink
  obtain ⟨hused, hlast⟩ := h.usedPages.link_lt hhead
  intro number hnumber
  rcases List.mem_append.mp hnumber with hmem | hmem
  · exact hused number hmem
  · match terminal, h.terminal_le, hmem with
    | [_], _, hmem =>
      rw [List.mem_singleton.mp hmem]
      exact hlast

/-- A definition is no longer than the pages of its file can hold. -/
theorem length_le (h : DefinitionChain file root first used terminal bytes maps) :
    bytes.length ≤ (file.pageCount - 1) * continuationCapacity + pageBytes := by
  -- the pages are distinct, and page zero is none of them
  have hsub : root :: (used ++ terminal) ⊆ List.range' 1 (file.pageCount - 1) := by
    intro number hnumber
    obtain ⟨hzero, hlt⟩ := h.stored number hnumber
    exact List.mem_range'_1.mpr ⟨Nat.pos_of_ne_zero hzero, lt_of_lt_of_le hlt (by omega)⟩
  have hcount := (List.Nodup.subperm h.distinct hsub).length_le
  rw [List.length_range', List.length_cons, List.length_append] at hcount
  have hpayload := h.usedPages.length_le
  rw [List.length_drop] at hpayload
  have hmul : used.length * continuationCapacity ≤ (file.pageCount - 1) * continuationCapacity :=
    Nat.mul_le_mul_right _ (by omega)
  omega

/-- A field of the header is read from the definition as from the root. -/
theorem root_field (h : DefinitionChain file root first used terminal bytes maps) {offset len : ℕ}
    (hend : offset + len ≤ definitionHeaderLen) :
    (bytes.drop offset).take len = first.slice offset (offset + len) := by
  have hheader : definitionHeaderLen ≤ pageBytes := by decide
  have hmin := h.minimum_le
  calc (bytes.drop offset).take len
      = ((bytes.take pageBytes).drop offset).take len := by
        rw [List.drop_take, List.take_take, Nat.min_eq_left (by omega)]
    _ = ((first.slice 0 (min bytes.length pageBytes)).drop offset).take len := by rw [h.rootBytes]
    _ = first.slice offset (offset + len) := by
        rw [Block.take_drop_slice first (by omega), Nat.zero_add]

/-- A definition holds its own length. -/
theorem length_field (h : DefinitionChain file root first used terminal bytes maps) :
    (bytes.drop 8).take 4 = leBytes 4 bytes.length := by
  have hlength : leValue (first.slice 8 12) = bytes.length := h.length_eq
  have hvalue := leBytes_leValue (first.slice 8 12)
  rw [hlength, Block.length_slice] at hvalue
  rw [h.root_field (by decide)]
  exact hvalue.symm

/-- The stored length has four bytes. -/
theorem length_lt (h : DefinitionChain file root first used terminal bytes maps) :
    bytes.length < 2 ^ 32 := by
  rw [← h.length_eq]
  exact first.le_lt 8 4

end DefinitionChain

/-- `read_definition_chain` accepts exactly the chains that hold a definition, and returns it. -/
theorem readDefinitionChain_ok_iff {file : PageFile} {root : PageNumber} {bytes : List UInt8}
    {maps : TableMapLocations} {pages : List PageNumber} :
    readDefinitionChain file root = .ok (bytes, maps, pages) ↔
      ∃ first used terminal, DefinitionChain file root first used terminal bytes maps ∧
        pages = root :: (used ++ terminal) := by
  simp only [readDefinitionChain, bind_ok_iff, mapError_ok_iff, Prod.exists,
    PageChainWalker.follow_ok_iff, validatePrefix, refuseIf_ok_iff, exists_unit, not_not, ne_eq,
    pure_ok_iff, Prod.mk.injEq, not_or, not_lt]
  constructor
  · rintro ⟨_, _, ⟨first, hfirst, hkind, -, rfl, rfl⟩, hheader, _, hmaps, ⟨hmin, -⟩, chain, hchain,
      chain', hterminal, hlast, rfl, rfl, rfl⟩
    -- the continuations give the payload, and a terminal page may follow them
    obtain ⟨used, payload, link, hpayload, hnext, hused, hnodup, hvisited, rfl⟩ :=
      ChainRead.readContinuations_ok_iff.mp hchain
    obtain ⟨terminal, hlink, hexact, hle, hpages, rfl⟩ :=
      ChainRead.readTerminal_ok_iff.mp ⟨hterminal, hlast⟩
    dsimp only [PageChainWalker.new] at *
    have hroot : root ≠ 0 := ne_zero_of_classifyPage (by simp) (by simp) hkind
    have hrootLen := first.length_slice 0 (min (u32At first 8) pageBytes)
    rw [Nat.sub_zero] at hrootLen
    -- first page and payload together have the declared length
    have hlen : (first.slice 0 (min (u32At first 8) pageBytes) ++ payload).length =
      u32At first 8 := by
      rw [List.length_append, hrootLen, hpayload]
      omega
    obtain ⟨htake, hdrop⟩ :=
      @take_drop_piece (first.slice 0 (min (u32At first 8) pageBytes)) payload pageBytes
        (by rw [hrootLen, hpayload]; omega)
    refine ⟨first, used, terminal, ?_, by simp⟩
    constructor
    · refine ⟨hfirst, hroot, hheader, ?_⟩
      rw [hnext, hlink]
      cases used <;> rfl
    · rw [hlen, htake]
    · exact hmaps
    · rwa [hdrop, ← hlink]
    · exact fun number hnumber => (hpages number hnumber).2
    · exact hle
    · rwa [hlen]
    · -- the walker has seen every page before, so all of them are different
      have hterminals : terminal.Nodup := by
        rcases terminal with _ | ⟨number, _ | ⟨other, rest⟩⟩
        · exact List.nodup_nil
        · exact List.pairwise_singleton _ _
        · simp at hle
      rw [List.nodup_cons, List.nodup_append, List.mem_append, not_or]
      refine ⟨⟨fun hmem => hvisited root hmem (by simp), fun hmem =>
        (hpages root hmem).1 (by simp)⟩, hnodup, hterminals, ?_⟩
      rintro number hused' _ hterminal' rfl
      exact (hpages number hterminal').1 (by simp [hused'])
    · exact hlen.symm
    · rwa [hlen]
  · -- conversely every step of the reader finds the page that the chain has there
    rintro ⟨first, used, terminal, h, rfl⟩
    have hroot := h.rootPage
    have hlength := h.length_eq
    have hdistinct := h.distinct
    rw [List.nodup_cons, List.nodup_append, List.mem_append, not_or] at hdistinct
    obtain ⟨⟨hrootUsed, hrootTerminal⟩, hused, -, hdisjoint⟩ := hdistinct
    refine ⟨_, _, ⟨first, hroot.stored, hroot.kind, List.not_mem_nil, rfl, rfl⟩, hroot.header, maps,
      h.rootMaps, ⟨hlength ▸ h.minimum_le, hlength ▸ h.length_le⟩,
      _, ChainRead.readContinuations_ok_iff.mpr
        ⟨used, bytes.drop pageBytes, terminal.headD 0, ?_, ?_,
        h.usedPages, hused, ?_, rfl⟩, _,
      (ChainRead.readTerminal_ok_iff.mpr ⟨terminal, rfl, ?_, h.terminal_le, ?_, rfl⟩).1, rfl, ?_,
      rfl, ?_⟩
    · rw [List.length_drop]
      show bytes.length - pageBytes = u32At first 8 - min (u32At first 8) pageBytes
      omega
    · show nextPage first = _
      rw [hroot.next_eq]
      cases used <;> rfl
    · rintro number hnumber hmem
      rw [List.mem_singleton.mp hmem] at hnumber
      exact hrootUsed hnumber
    · show terminal ≠ [] → pageBytes ≤ u32At first 8 ∧ _
      rw [hlength]
      exact h.terminal_exact
    · intro number hnumber
      refine ⟨fun hmem => ?_, h.terminalPages number hnumber⟩
      rcases List.mem_append.mp hmem with hmem | hmem
      · exact hdisjoint number (List.mem_reverse.mp hmem) number hnumber rfl
      · rw [List.mem_singleton.mp hmem] at hnumber
        exact hrootTerminal hnumber
    · show first.slice 0 (min (u32At first 8) pageBytes) ++ bytes.drop pageBytes = bytes
      rw [hlength, h.rootBytes, List.take_append_drop]
    · simp

end Jet3
