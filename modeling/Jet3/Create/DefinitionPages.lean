import Jet3.Definition.Pieces
import Jet3.Library.Chunks

/-!
# Composing definition pages

A new table's definition is composed page by page: the root, and continuations on consecutive pages.
A definition that ends exactly at a page boundary keeps an empty terminal page.

* `root` and `continuation` compose one page;
* `Composed.reads` says that a file with the composed pages holds the definition.
-/

namespace Jet3

open Outcome

/-- The continuation pages of a definition of `length` bytes. -/
def continuationCount (length : ℕ) : ℕ :=
  if length < pageBytes then 0 else 1 + (length - pageBytes) / continuationCapacity

/-- A definition to compose: its bytes filled up to a page, and the count of its continuations. -/
structure DefinitionPages where
  logical : List UInt8
  continuationCount : ℕ
  emptyTerminal : Bool
  deriving DecidableEq, Repr

/-- `next_reference`: the stored form of a link. -/
def nextReference (next : Option PageNumber) : Except Error (List UInt8) := do
  let page := next.getD 0
  refuseIf (¬page < 2 ^ 32) (.integerConversion page "u32 definition continuation")
  return leBytes 4 page

namespace DefinitionPages

/-- The pages of a definition of `length` bytes, not yet written. -/
def new (length : ℕ) : DefinitionPages :=
  { logical := List.replicate (max length pageBytes) 0
    continuationCount := Jet3.continuationCount length
    emptyTerminal := pageBytes ≤ length ∧ (length - pageBytes) % continuationCapacity = 0 }

/-- Writes the definition through `logical_mut`. -/
def fill (pages : DefinitionPages) (bytes : List UInt8) : DefinitionPages :=
  { pages with logical := overwrite pages.logical 0 bytes }

/-- The root page, with the first piece of the definition and the link to the next one. -/
def root (pages : DefinitionPages) (next : Option PageNumber) : Except Error Page := do
  let image := (Block.fill pageBytes 0).write 0 (pages.logical.take pageBytes)
  let link ← nextReference next
  return image.write 4 link

/-- The pieces behind the root page. -/
def continuations (pages : DefinitionPages) : List (List UInt8) :=
  chunks continuationCapacity (pages.logical.drop pageBytes) ++
    if pages.emptyTerminal then [[]] else []

/-- A continuation page with its piece and its link. -/
def continuation (pages : DefinitionPages) (first : PageNumber) (ordinal : ℕ)
    (payload : List UInt8) : Except Error Page := do
  let next := if ordinal + 1 < pages.continuationCount then some (first + ordinal + 1) else none
  refuseIf (¬next.getD 0 < 2 ^ 64) (.arithmetic "place definition continuation")
  let image ← writeAt PageKind.tableDefinition.newImage 0 (pages.logical.take 4)
  let link ← nextReference next
  let image ← writeAt image 4 link
  writeAt image 8 payload

end DefinitionPages

/-- A file with the composed pages of a definition: the root, and the continuations from page
`first` on. -/
structure Composed (file : PageFile) (pages : DefinitionPages) (root first : PageNumber) :
    Prop where
  rootPage : ∃ image, pages.root (if pages.continuationCount = 0 then none else some first) =
    .ok image ∧ file[root]? = some image
  continuationPages : ∀ ordinal payload, pages.continuations[ordinal]? = some payload →
    ∃ image, pages.continuation first ordinal payload = .ok image ∧
      file[first + ordinal]? = some image

namespace DefinitionPages

/-- A link is stored where it fits four bytes. -/
theorem nextReference_ok_iff {next : Option PageNumber} {link : List UInt8} :
    nextReference next = .ok link ↔ next.getD 0 < 2 ^ 32 ∧ leBytes 4 (next.getD 0) = link := by
  simp only [nextReference, bind_ok_iff, exists_unit, refuseIf_ok_iff, not_not, pure_ok_iff]

variable {length : ℕ} {bytes : List UInt8}

/-- The written definition, filled up to a page. -/
theorem logical_fill (h : bytes.length = length) :
    ((new length).fill bytes).logical =
      bytes ++ List.replicate (max length pageBytes - length) 0 := by
  simp only [fill, new, overwrite, List.take_zero, List.nil_append, Nat.zero_add, h,
    List.drop_replicate]

/-- Piece `n` of a list starts at `n * size`. -/
theorem getElem?_chunks (size : ℕ) (items : List UInt8) (n : ℕ) :
    (chunks size items)[n]? =
      if n < (items.length + size - 1) / size then some ((items.drop (n * size)).take size)
      else none := by
  rw [chunks, List.getElem?_map]
  split
  next h => rw [List.getElem?_range h, Option.map_some]
  next h => rw [List.getElem?_eq_none (by simpa using h), Option.map_none]

/-- The continuations of a definition are its pieces behind the root, and an empty one. -/
theorem continuations_fill (h : bytes.length = length) (ordinal : ℕ) :
    ((new length).fill bytes).continuations[ordinal]? =
      if ordinal < Jet3.continuationCount length then some (pieceAt bytes (ordinal + 1))
        else none := by
  have hpage : pageBytes = 2048 := rfl
  have hcapacity : continuationCapacity = 2040 := rfl
  have hterminal : ((new length).fill bytes).emptyTerminal =
      decide (pageBytes ≤ length ∧ (length - pageBytes) % continuationCapacity = 0) := rfl
  rw [continuations, logical_fill h, hterminal]
  by_cases hshort : length < pageBytes
  · -- the definition fits its root
    have hnone : ¬(pageBytes ≤ length ∧ (length - pageBytes) % continuationCapacity = 0) := by omega
    have hempty : (bytes ++ List.replicate (max length pageBytes - length) 0).drop pageBytes =
      [] := by
      rw [List.drop_eq_nil_iff, List.length_append, List.length_replicate]
      omega
    rw [Jet3.continuationCount, if_pos hshort, hempty, decide_eq_false hnone]
    simp [chunks, hcapacity]
  · have hwhole : bytes ++ List.replicate (max length pageBytes - length) 0 = bytes := by
      rw [Nat.max_eq_left (by omega), Nat.sub_self, List.replicate_zero, List.append_nil]
    have hpiece : ∀ n, ((bytes.drop pageBytes).drop (n * continuationCapacity)).take
        continuationCapacity = pieceAt bytes (n + 1) := by
      intro n
      rw [List.drop_drop]
      rfl
    have hget := getElem?_chunks continuationCapacity (bytes.drop pageBytes)
    have hcount : (chunks continuationCapacity (bytes.drop pageBytes)).length =
        (length - 2048 + 2040 - 1) / 2040 := by
      simp [chunks, h, hpage, hcapacity]
    rw [hwhole, Jet3.continuationCount, if_neg hshort, hpage, hcapacity]
    rw [List.length_drop, h, hpage, hcapacity] at hget
    rw [hpage, hcapacity] at hcount hpiece
    by_cases hchunk : ordinal < (length - 2048 + 2040 - 1) / 2040
    · rw [List.getElem?_append_left (by rw [hcount]; exact hchunk), hget, if_pos hchunk,
        if_pos (by omega), hpiece]
    · rw [List.getElem?_append_right (by rw [hcount]; omega), hcount]
      by_cases hexact : 2048 ≤ length ∧ (length - 2048) % 2040 = 0
      · -- the terminal page is the one behind the last piece
        rw [decide_eq_true hexact, if_pos rfl]
        by_cases hlast : ordinal = (length - 2048 + 2040 - 1) / 2040
        · have hnil : pieceAt bytes (ordinal + 1) = [] := by
            rw [pieceAt, List.drop_of_length_le, List.take_nil]
            rw [pieceOffset, hpage, hcapacity, h]
            omega
          rw [if_pos (by omega), hnil, hlast, Nat.sub_self]
          rfl
        · rw [if_neg (by omega), List.getElem?_eq_none]
          rw [List.length_singleton]
          omega
      · rw [decide_eq_false hexact, if_neg Bool.false_ne_true, List.getElem?_nil, if_neg (by omega)]

/-- The composed root holds the first piece of the definition. -/
theorem root_holds {next : Option PageNumber} {image : Page} (h : bytes.length = length)
    (hmin : 8 ≤ length) (hinitial : bytes.take 4 = definitionPrefix)
    (hok : ((new length).fill bytes).root next = .ok image) :
    HoldsPiece image 0 (pieceAt bytes 0) (next.getD 0) := by
  have hpage : pageBytes = 2048 := rfl
  simp only [root, bind_ok_iff, nextReference_ok_iff, pure_ok_iff] at hok
  obtain ⟨_, ⟨hlt, rfl⟩, rfl⟩ := hok
  rw [logical_fill h]
  set logical := (bytes ++ List.replicate (max length pageBytes - length) 0).take pageBytes
    with hlogical
  have hlen : logical.length = pageBytes := by
    rw [hlogical, List.length_take, List.length_append, List.length_replicate]
    omega
  -- inside the definition the image is the definition, up to the link
  have hslice : ∀ start stop, start ≤ stop → stop ≤ min length pageBytes →
      ((Block.fill pageBytes 0).write 0 logical).slice start stop =
        (bytes.drop start).take (stop - start) := by
    intro start stop hle hstop
    have hwhole := (Block.fill pageBytes 0).slice_write_self
      (show pageBytes = 0 + logical.length by omega) (le_refl pageBytes)
    have hpiece := @Block.take_drop_slice _ ((Block.fill pageBytes 0).write 0 logical) 0 pageBytes
      start (stop - start) (by omega)
    rw [hwhole, Nat.zero_add, Nat.add_sub_cancel' hle] at hpiece
    rw [← hpiece, hlogical, List.drop_take, List.take_take, Nat.min_eq_left (by omega),
      List.drop_append_of_le_length (by omega), List.take_append_of_le_length]
    rw [List.length_drop]
    omega
  have hlink : (leBytes 4 (next.getD 0)).length = 4 := length_leBytes 4 _
  have hpieceLen : (pieceAt bytes 0).length = min length pageBytes := by
    rw [← h, Nat.min_comm]
    exact List.length_take
  constructor
  · rw [Block.slice_write_of_disjoint _ (.inl (le_refl 4)), hslice 0 4 (by omega) (by omega),
      List.drop_zero]
    exact hinitial
  · rw [nextPage, u32At, Block.le_write_self _ hlink (by decide), leValue_leBytes_of_lt hlt]
  · rw [Block.slice_write_of_disjoint _ (.inr (by omega)), hpieceLen, Nat.zero_add,
      hslice 8 _ (by omega) (le_refl _)]
    have hpiece : pieceAt bytes 0 = bytes.take pageBytes := rfl
    rw [hpiece, List.drop_take, Nat.sub_zero]
    -- the whole definition, or as much of it as the first page holds
    rcases Nat.le_total length pageBytes with hle | hle
    · rw [Nat.min_eq_left hle, List.take_of_length_le (by rw [List.length_drop]; omega),
        List.take_of_length_le (by rw [List.length_drop]; omega)]
    · rw [Nat.min_eq_right hle]

/-- A composed continuation holds its piece of the definition. -/
theorem continuation_holds {first ordinal : ℕ} {payload : List UInt8} {image : Page}
    (h : bytes.length = length) (hmin : 8 ≤ length) (hinitial : bytes.take 4 = definitionPrefix)
    (hok : ((new length).fill bytes).continuation first ordinal payload = .ok image) :
    HoldsPiece image (pieceStart (ordinal + 1)) payload
      (if ordinal + 1 < Jet3.continuationCount length then first + ordinal + 1 else 0) := by
  have hfirst : ((new length).fill bytes).logical.take 4 = definitionPrefix := by
    rw [logical_fill h, List.take_append_of_le_length (by omega), hinitial]
  have hcount : ((new length).fill bytes).continuationCount = Jet3.continuationCount length := rfl
  have hprefixLen : definitionPrefix.length = 4 := rfl
  simp only [continuation, bind_ok_iff, exists_unit, refuseIf_ok_iff, writeAt_ok_iff,
    nextReference_ok_iff, hfirst, hcount] at hok
  obtain ⟨-, _, ⟨-, rfl⟩, _, ⟨hlt, rfl⟩, _, ⟨-, rfl⟩, hfit, rfl⟩ := hok
  set next := if ordinal + 1 <
    Jet3.continuationCount length then some (first + ordinal + 1) else none
    with hnext
  have hlink : (leBytes 4 (next.getD 0)).length = 4 := length_leBytes 4 _
  have hvalue : next.getD 0 =
      if ordinal + 1 < Jet3.continuationCount length then first + ordinal + 1 else 0 := by
    rw [hnext]
    split <;> rfl
  constructor
  · rw [Block.slice_write_of_disjoint _ (.inl (by omega)),
      Block.slice_write_of_disjoint _ (.inl (le_refl 4)),
      Block.slice_write_self _ (by omega) (by decide)]
  · rw [nextPage, u32At, Block.le_write_of_disjoint _ (.inl (by omega)),
      Block.le_write_self _ hlink (by decide), leValue_leBytes_of_lt hlt, hvalue]
  · exact Block.slice_write_self _ rfl hfit

end DefinitionPages

/-- The link behind a page of consecutive continuations. -/
theorem getElem?_range'_getD (root first count ordinal : ℕ) :
    (root :: List.range' first count)[ordinal + 1]?.getD 0 =
      if ordinal < count then first + ordinal else 0 := by
  rw [List.getElem?_cons_succ]
  split
  next h =>
    rw [List.getElem?_range' h, Nat.one_mul]
    rfl
  next h =>
    rw [List.getElem?_eq_none (by simpa using h)]
    rfl

/-- The creator keeps as many pages as a definition needs, and one more at an exact boundary. -/
theorem continuationCount_bounds (length : ℕ) :
    definitionPageCount length ≤ continuationCount length + 1 ∧
      (definitionPageCount length ≠ continuationCount length + 1 →
        definitionPageCount length = continuationCount length ∧ pageBytes ≤ length ∧
          (length - pageBytes) % continuationCapacity = 0) := by
  have hpage : pageBytes = 2048 := rfl
  have hcapacity : continuationCapacity = 2040 := rfl
  have hneeded : definitionPageCount length = 1 + (length - 2048 + 2040 - 1) / 2040 := rfl
  rw [hneeded, continuationCount, hpage, hcapacity]
  split
  · omega
  · omega

/-- The composed pages of a definition are read back as the definition, with the link of its
root. -/
theorem Composed.reads {file : PageFile} {root first length : ℕ} {bytes : List UInt8}
    (hlength : bytes.length = length) (hinitial : bytes.take 4 = definitionPrefix)
    (h : Composed file ((DefinitionPages.new length).fill bytes) root first) (hroot : root ≠ 0)
    (hfirst : first ≠ 0) (hapart : root ∉ List.range' first (continuationCount length))
    (hbytes : DefinitionBytes file.pageCount bytes) :
    readDefinitionChain file root =
      .ok (linkedBytes bytes ((List.range' first (continuationCount length)).headD 0),
        definitionMaps bytes, root :: List.range' first (continuationCount length)) := by
  have hmin : 45 ≤ bytes.length := hbytes.minimum_le
  have hcount : ((DefinitionPages.new length).fill bytes).continuationCount =
    continuationCount length := rfl
  refine HoldPieces.reads ?_ (List.nodup_cons.mpr ⟨hapart, List.nodup_range' ..⟩) ?_ hbytes ?_ ?_
  · intro ordinal page hpage
    cases ordinal with
    | zero =>
      obtain ⟨image, himage, hstored⟩ := h.rootPage
      have hholds := DefinitionPages.root_holds hlength (by omega) hinitial himage
      -- the first page leads to the continuations where there are any
      have hlink : (root :: List.range' first (continuationCount length))[0 + 1]?.getD 0 =
          (if ((DefinitionPages.new length).fill bytes).continuationCount = 0 then none
            else some first).getD 0 := by
        rw [hcount, getElem?_range'_getD]
        rcases Nat.eq_zero_or_pos (continuationCount length) with hzero | hpos
        · rw [if_pos hzero, if_neg (by omega)]
          rfl
        · rw [if_neg (Nat.ne_of_gt hpos), if_pos hpos]
          rfl
      cases hpage
      exact ⟨image, hstored, hlink ▸ hholds⟩
    | succ ordinal =>
      rw [List.getElem?_cons_succ] at hpage
      obtain ⟨hlt, hnumber⟩ := List.getElem?_eq_some_iff.mp hpage
      rw [List.length_range'] at hlt
      rw [List.getElem_range', Nat.one_mul] at hnumber
      obtain ⟨image, himage, hstored⟩ := h.continuationPages ordinal (pieceAt bytes (ordinal + 1))
        (by rw [DefinitionPages.continuations_fill hlength, if_pos hlt])
      -- a continuation leads to the next one, the last to none
      have hholds := DefinitionPages.continuation_holds hlength (by omega) hinitial himage
      have hlink : (root :: List.range' first (continuationCount length))[ordinal + 1 + 1]?.getD 0 =
          if ordinal + 1 < continuationCount length then first + ordinal + 1 else 0 :=
        getElem?_range'_getD ..
      exact ⟨image, hnumber ▸ hstored, hlink ▸ hholds⟩
  · intro page hpage
    rcases List.mem_cons.mp hpage with rfl | hmem
    · exact hroot
    · have := (List.mem_range'_1.mp hmem).1
      exact Nat.ne_of_gt (lt_of_lt_of_le (Nat.pos_of_ne_zero hfirst) this)
  · rw [List.length_range', hlength]
    exact (continuationCount_bounds length).1
  · rw [List.length_range', hlength]
    exact (continuationCount_bounds length).2

end Jet3
