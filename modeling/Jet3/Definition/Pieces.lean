import Jet3.Definition.Chain
import Mathlib.Order.Monotone.Basic

/-!
# The pieces of a definition

A definition is split over its pages: the root takes the first 2,048 bytes, and each continuation
the next 2,040. Behind the prefix and the link every page holds its piece.

* `HoldPieces` says that the pages of a file hold the pieces of a definition;
* `HoldPieces.reads` says that such pages are read back as the definition.
-/

namespace Jet3

open Outcome

/-- The pages a definition of `length` bytes needs. -/
def definitionPageCount (length : ℕ) : ℕ :=
  1 + (length - pageBytes + (pageBytes - 8) - 1) / (pageBytes - 8)

/-- What a page of a chain has to hold: the prefix, the link and a piece of the definition. -/
structure HoldsPiece (image : Page) (start : ℕ) (piece : List UInt8) (next : PageNumber) :
    Prop where
  header : image.slice 0 4 = definitionPrefix
  next_eq : nextPage image = next
  piece_eq : image.slice 8 (start + piece.length) = piece.drop (8 - start)

/-- Where the piece of page `ordinal` starts in the definition. -/
def pieceOffset : ℕ → ℕ
  | 0 => 0
  | ordinal + 1 => pageBytes + ordinal * continuationCapacity

/-- Where the piece of page `ordinal` starts in its page. -/
def pieceStart (ordinal : ℕ) : ℕ :=
  if ordinal = 0 then 0 else continuationPayloadOffset

/-- The piece of the definition that page `ordinal` holds. -/
def pieceAt (bytes : List UInt8) (ordinal : ℕ) : List UInt8 :=
  (bytes.drop (pieceOffset ordinal)).take (pageBytes - pieceStart ordinal)

/-- A piece ends where the next one starts. -/
theorem pieceOffset_succ (ordinal : ℕ) :
    pieceOffset (ordinal + 1) = pieceOffset ordinal + (pageBytes - pieceStart ordinal) := by
  cases ordinal with
  | zero => simp [pieceOffset, pieceStart]
  | succ ordinal =>
    simp only [pieceOffset, pieceStart, continuationCapacity, if_neg (Nat.succ_ne_zero ordinal)]
    ring

theorem pieceOffset_mono : Monotone pieceOffset :=
  monotone_nat_of_le_succ fun ordinal => by
    rw [pieceOffset_succ]
    exact Nat.le_add_right _ _

/-- The pages of a file that hold a definition: page `ordinal` holds its piece and links to the page
after it. -/
def HoldPieces (file : PageFile) (pages : List PageNumber) (bytes : List UInt8) : Prop :=
  ∀ ordinal page, pages[ordinal]? = some page →
    ∃ image, file[page]? = some image ∧
      HoldsPiece image (pieceStart ordinal) (pieceAt bytes ordinal) (pages[ordinal + 1]?.getD 0)

/-- The definition a chain holds: the bytes it was staged with, behind the prefix and the link of
its root. -/
def linkedBytes (bytes : List UInt8) (next : PageNumber) : List UInt8 :=
  definitionPrefix ++ (leBytes 4 next ++ bytes.drop 8)

/-- The map locators a definition holds. -/
def definitionMaps (bytes : List UInt8) : TableMapLocations :=
  { owned := decodeLocator ((bytes.drop 35).take 4)
    available := decodeLocator ((bytes.drop 39).take 4) }

/-- Bytes of a definition: they hold their own length, and map locators inside the file. -/
structure DefinitionBytes (pageCount : ℕ) (bytes : List UInt8) : Prop where
  minimum_le : definitionHeaderLen + terminatorLen ≤ bytes.length
  length_eq : leAt bytes 8 4 = bytes.length
  owned_lt : (definitionMaps bytes).owned.page < pageCount
  available_lt : (definitionMaps bytes).available.page < pageCount

/-- Pages that hold the pieces of a definition continue a chain. -/
theorem HoldPieces.continues {file : PageFile} {pages : List PageNumber} {bytes : List UInt8}
    (h : HoldPieces file pages bytes) (hzero : ∀ page ∈ pages, page ≠ 0)
    {ordinal : ℕ} {used terminal : List PageNumber}
    (hpages : pages.drop (ordinal + 1) = used ++ terminal)
    (hlong : used ≠ [] → pieceOffset (ordinal + used.length) < bytes.length)
    (hshort : bytes.length ≤ pieceOffset (ordinal + 1 + used.length)) :
    Continues file (terminal.headD 0) used (bytes.drop (pieceOffset (ordinal + 1))) := by
  induction used generalizing ordinal with
  | nil => exact List.drop_of_length_le hshort
  | cons page rest ih =>
    have hget : pages[ordinal + 1]? = some page := by
      have := congrArg (fun l => l[0]?) hpages
      simpa using this
    -- a page leads to the next one, the last one to the terminal page
    have hnext : pages[ordinal + 1 + 1]?.getD 0 = rest.headD (terminal.headD 0) := by
      have := congrArg (fun l => l[1]?) hpages
      simp only [List.getElem?_drop, List.cons_append, List.getElem?_cons_succ] at this
      rw [this]
      cases rest <;> cases terminal <;> rfl
    obtain ⟨image, himage, hpiece⟩ := h _ _ hget
    have hlt : pieceOffset (ordinal + 1) < bytes.length := by
      refine lt_of_le_of_lt ?_ (hlong (List.cons_ne_nil _ _))
      rw [List.length_cons, ← Nat.add_assoc, Nat.add_right_comm]
      exact pieceOffset_mono (Nat.le_add_right _ _)
    have hlen : (pieceAt bytes (ordinal + 1)).length =
        min (bytes.drop (pieceOffset (ordinal + 1))).length continuationCapacity := by
      rw [pieceAt, List.length_take, Nat.min_comm]
      rfl
    have hpieceEq := hpiece.piece_eq
    rw [show pieceStart (ordinal + 1) = 8 from rfl, hlen] at hpieceEq
    refine ⟨?_, ⟨image, ⟨himage, hzero page (List.mem_of_getElem? hget), hpiece.header, ?_⟩,
      hpieceEq⟩, ?_⟩
    · exact List.ne_nil_of_length_pos (by rw [List.length_drop]; omega)
    · rw [hpiece.next_eq, hnext]
    · have hoffset : pieceOffset (ordinal + 1) + continuationCapacity =
        pieceOffset (ordinal + 1 + 1) :=
        (pieceOffset_succ _).symm
      rw [List.drop_drop, hoffset]
      refine @ih (ordinal + 1) ?_ ?_ ?_
      · rw [← List.drop_drop, hpages]
        rfl
      · intro _
        have := hlong (List.cons_ne_nil _ _)
        rwa [List.length_cons, ← Nat.add_assoc, Nat.add_right_comm] at this
      · rwa [List.length_cons, ← Nat.add_assoc, Nat.add_right_comm] at hshort

@[simp]
theorem length_linkedBytes {bytes : List UInt8} {next : PageNumber} (h : 8 ≤ bytes.length) :
    (linkedBytes bytes next).length = bytes.length := by
  have hinitial : definitionPrefix.length = 4 := rfl
  rw [linkedBytes, List.length_append, List.length_append, length_leBytes, List.length_drop]
  omega

/-- The pages a definition needs beyond its root are as many as hold the rest of it. -/
theorem definitionPageCount_bounds (length : ℕ) :
    1 ≤ definitionPageCount length ∧ length ≤ pieceOffset (definitionPageCount length) ∧
      (1 < definitionPageCount length → pieceOffset (definitionPageCount length - 1) < length) := by
  have hpage : pageBytes = 2048 := rfl
  have hcapacity : continuationCapacity = 2040 := rfl
  obtain ⟨needed, hneeded⟩ : ∃ needed, (length - 2048 + 2040 - 1) / 2040 = needed := ⟨_, rfl⟩
  have hcount : definitionPageCount length = needed + 1 := by
    rw [← hneeded, Nat.add_comm]
    rfl
  rw [hcount]
  refine ⟨by omega, ?_, fun hlt => ?_⟩
  · rw [pieceOffset, hcapacity]
    omega
  · obtain ⟨before, rfl⟩ : ∃ before, needed = before + 1 := ⟨needed - 1, by omega⟩
    rw [Nat.add_sub_cancel, pieceOffset, hcapacity]
    omega

/-- Both map locators are found exactly when they name pages of the file. -/
theorem locateTableMaps_ok_iff {pageCount : ℕ} {number : PageNumber} {raw : Page}
    {maps : TableMapLocations} :
    locateTableMaps pageCount { number, kind := .tableDefinition, raw } = .ok maps ↔
      maps.owned.page < pageCount ∧ maps.available.page < pageCount ∧
        maps = { owned := decodeLocator (raw.slice 35 39)
                 available := decodeLocator (raw.slice 39 43) } := by
  simp only [locateTableMaps, locateTableMap, bind_ok_iff, exists_unit, refuseIf_ok_iff, not_not,
    ne_eq, mapError_ok_iff, validateReference, pure_ok_iff]
  constructor
  · rintro ⟨-, _, ⟨howned, rfl⟩, _, ⟨havailable, rfl⟩, rfl⟩
    exact ⟨howned, havailable, rfl⟩
  · rintro ⟨howned, havailable, rfl⟩
    exact ⟨trivial, _, ⟨howned, rfl⟩, _, ⟨havailable, rfl⟩, rfl⟩

/-- A field of the definition, behind the link, is read from the root. -/
theorem HoldsPiece.root_field {image : Page} {bytes : List UInt8} {next : PageNumber}
    (h : HoldsPiece image 0 (pieceAt bytes 0) next) {offset len : ℕ} (hoffset : 8 ≤ offset)
    (hend : offset + len ≤ min bytes.length pageBytes) :
    image.slice offset (offset + len) = (bytes.drop offset).take len := by
  have hpiece : pieceAt bytes 0 = bytes.take pageBytes := rfl
  have hlen : (pieceAt bytes 0).length = min bytes.length pageBytes := by
    rw [hpiece, List.length_take, Nat.min_comm]
  have heq := h.piece_eq
  rw [hlen, Nat.zero_add, hpiece] at heq
  have hslice := @Block.take_drop_slice _ image 8 (min bytes.length pageBytes) (offset - 8) len
    (by omega)
  have hsplit : 8 + (offset - 8) = offset := by omega
  rw [heq, List.drop_drop, Nat.sub_zero, hsplit] at hslice
  rw [← hslice, List.drop_take, List.take_take, Nat.min_eq_left (by omega)]

/-- The root holds the first piece of the definition, behind the prefix and its link. -/
theorem HoldsPiece.root_bytes {image : Page} {bytes : List UInt8} {next : PageNumber}
    (h : HoldsPiece image 0 (pieceAt bytes 0) next) (hmin : 8 ≤ bytes.length) :
    image.slice 0 (min (linkedBytes bytes next).length pageBytes) =
      (linkedBytes bytes next).take pageBytes := by
  have hinitial : definitionPrefix.length = 4 := rfl
  have hbig : 8 ≤ pageBytes := by decide
  have hlen := @length_linkedBytes bytes next hmin
  have hlink : image.slice 4 8 = leBytes 4 next := by
    have hvalue := leBytes_leValue (image.slice 4 8)
    have hnext : leValue (image.slice 4 8) = next := h.next_eq
    rwa [Block.length_slice, hnext, eq_comm] at hvalue
  have hrest : image.slice 8 (min bytes.length pageBytes) =
    (bytes.drop 8).take (pageBytes - 8) := by
    have hfield := @HoldsPiece.root_field image bytes next h 8 (min bytes.length pageBytes - 8)
      (le_refl _) (by omega)
    rw [Nat.add_sub_cancel' (by omega)] at hfield
    rw [hfield]
    rcases Nat.le_total bytes.length pageBytes with hle | hle
    · rw [Nat.min_eq_left hle, List.take_of_length_le (by rw [List.length_drop]),
        List.take_of_length_le (by rw [List.length_drop]; omega)]
    · rw [Nat.min_eq_right hle]
  calc image.slice 0 (min (linkedBytes bytes next).length pageBytes)
      = image.slice 0 4 ++ (image.slice 4 8 ++ image.slice 8 (min bytes.length pageBytes)) := by
        rw [hlen, Block.slice_append_slice _ (by omega) (by omega),
          Block.slice_append_slice _ (by omega) (by omega)]
    _ = definitionPrefix ++ (leBytes 4 next ++ (bytes.drop 8).take (pageBytes - 8)) := by
        rw [h.header, hlink, hrest]
    _ = (linkedBytes bytes next).take pageBytes := by
        have hhead : (definitionPrefix ++ leBytes 4 next).length + (pageBytes - 8) = pageBytes := by
          rw [List.length_append, length_leBytes, hinitial]
          omega
        rw [linkedBytes, ← List.append_assoc, ← List.append_assoc]
        conv_rhs => rw [← hhead, List.take_length_add_append]

/-- Pages that hold the pieces of a definition are read back as that definition, with the prefix and
the link its root has. -/
theorem HoldPieces.reads {file : PageFile} {root : PageNumber} {rest : List PageNumber}
    {bytes : List UInt8} (h : HoldPieces file (root :: rest) bytes)
    (hdistinct : (root :: rest).Nodup) (hzero : ∀ page ∈ root :: rest, page ≠ 0)
    (hbytes : DefinitionBytes file.pageCount bytes)
    (hcount : definitionPageCount bytes.length ≤ rest.length + 1)
    (hexact : definitionPageCount bytes.length ≠ rest.length + 1 →
      definitionPageCount bytes.length = rest.length ∧ pageBytes ≤ bytes.length ∧
        (bytes.length - pageBytes) % continuationCapacity = 0) :
    readDefinitionChain file root =
      .ok (linkedBytes bytes (rest.headD 0), definitionMaps bytes, root :: rest) := by
  rw [readDefinitionChain_ok_iff]
  obtain ⟨first, hfirst, hpiece⟩ := h 0 root rfl
  have hmin := hbytes.minimum_le
  have hheader : definitionHeaderLen + terminatorLen = 45 := rfl
  have hpage : pageBytes = 2048 := rfl
  have hlinkEq : (root :: rest)[0 + 1]?.getD 0 = rest.headD 0 := by cases rest <;> rfl
  rw [hlinkEq] at hpiece
  have hlen : (linkedBytes bytes (rest.headD 0)).length = bytes.length :=
    length_linkedBytes (by omega)
  obtain ⟨hpos, hshort, hlong⟩ := definitionPageCount_bounds bytes.length
  obtain ⟨needed, hneeded⟩ : ∃ needed, definitionPageCount bytes.length = needed + 1 :=
    ⟨_, (Nat.sub_add_cancel hpos).symm⟩
  rw [hneeded] at hcount hexact hshort hlong
  have hused : (rest.take needed).length = needed := by
    rw [List.length_take]
    omega
  refine ⟨first, rest.take needed, rest.drop needed, ?_, by rw [List.take_append_drop]⟩
  constructor
  · rw [List.take_append_drop]
    exact ⟨hfirst, hzero root List.mem_cons_self, hpiece.header, hpiece.next_eq⟩
  · exact hpiece.root_bytes (by omega)
  · rw [locateTableMaps_ok_iff]
    refine ⟨hbytes.owned_lt, hbytes.available_lt, ?_⟩
    rw [definitionMaps, ← hpiece.root_field (by omega) (by omega),
      ← hpiece.root_field (by omega) (by omega)]
  · -- the link changes bytes of the first page only
    have htail : (linkedBytes bytes (rest.headD 0)).drop pageBytes =
      bytes.drop (pieceOffset 1) := by
      have hhead : (definitionPrefix ++ leBytes 4 (rest.headD 0)).length = 8 := by
        rw [List.length_append, length_leBytes]
        rfl
      have hdrop : pageBytes = 8 + (pageBytes - 8) := by omega
      rw [linkedBytes, ← List.append_assoc, hdrop, ← List.drop_drop, List.drop_left' hhead,
        List.drop_drop]
      rfl
    rw [htail]
    refine h.continues hzero (List.take_append_drop needed rest).symm ?_ ?_
    · intro hne
      rw [hused, Nat.zero_add]
      refine hlong ?_
      have := List.length_pos_iff.mpr hne
      omega
    · rwa [hused, Nat.zero_add, Nat.add_comm]
  · intro number hnumber
    -- a page behind the last needed piece leads nowhere
    obtain ⟨n, hn⟩ := List.mem_iff_getElem?.mp hnumber
    rw [List.getElem?_drop] at hn
    obtain ⟨hlt, -⟩ := List.getElem?_eq_some_iff.mp hn
    obtain ⟨image, himage, hlast⟩ := h (needed + n + 1) number hn
    refine ⟨image, himage, hzero number (List.mem_cons_of_mem _ (List.mem_of_getElem? hn)),
      hlast.header, ?_⟩
    rw [hlast.next_eq, List.getElem?_eq_none]
    · rfl
    · have := hexact (by omega)
      rw [List.length_cons]
      omega
  · rw [List.length_drop]
    by_cases heq : needed + 1 = rest.length + 1
    · omega
    · have := hexact heq
      omega
  · intro hne
    have := List.length_pos_iff.mpr hne
    rw [List.length_drop] at this
    rw [hlen]
    exact (hexact (by omega)).2
  · rw [List.take_append_drop]
    exact hdistinct
  · rw [hlen, ← hbytes.length_eq, leAt, ← hpiece.root_field (by omega) (by omega)]
    rfl
  · rwa [hlen]

end Jet3
