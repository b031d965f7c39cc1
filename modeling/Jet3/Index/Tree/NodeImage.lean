import Jet3.Index.Tree.Reader
import Jet3.Library.Lookup

/-!
# Written index pages

What a page has on it after a node was written: the header, the links, the entries one behind the
other and a boundary at the end of each.

* `ends` are the ends of entries that are packed;
* `HoldsEntries.writeEntry` is one entry, and `NodeImage` the page of a node;
* `image_ok` says that a node that is written has its page.
-/

namespace Jet3

open Outcome ScalarIndexPages

/-- Writing what is there already. -/
theorem write_slice {n : ℕ} {image : Block n} {offset : ℕ} {bytes : List UInt8}
    (h : image.slice offset (offset + bytes.length) = bytes) :
    image.write offset bytes = image := by
  refine Block.ext_get fun i hi => ?_
  rw [Block.get_write]
  split
  next hin =>
    have hbyte := @Block.getD_slice _ image offset (offset + bytes.length) (i - offset) (by omega)
    rw [h] at hbyte
    rw [hbyte, Nat.add_sub_cancel' hin.1]
  next => rfl

/-! ## Packed entries -/

/-- The ends of entries packed from `start` on. -/
def ends (start : ℕ) : List (List UInt8) → List ℕ
  | [] => []
  | entry :: entries => (start + entry.length) :: ends (start + entry.length) entries

theorem ends_append_singleton (start : ℕ) (entries : List (List UInt8)) (entry : List UInt8) :
    ends start (entries ++ [entry]) =
      ends start entries ++ [start + entries.flatten.length + entry.length] := by
  induction entries generalizing start with
  | nil => simp [ends]
  | cons first entries ih => simp [ends, ih, Nat.add_assoc]

@[simp]
theorem length_ends (start : ℕ) (entries : List (List UInt8)) :
    (ends start entries).length = entries.length := by
  induction entries generalizing start with
  | nil => rfl
  | cons first entries ih => rw [ends, List.length_cons, ih, List.length_cons]

theorem mem_ends_le {start stop : ℕ} {entries : List (List UInt8)} (h : stop ∈ ends start entries) :
    start ≤ stop ∧ stop ≤ start + entries.flatten.length := by
  induction entries generalizing start with
  | nil => cases h
  | cons first entries ih =>
    rw [List.flatten_cons, List.length_append]
    rcases List.mem_cons.mp h with rfl | h
    · omega
    · have := ih h
      omega

/-- The ends of entries that have bytes are different, and listed from the first on. -/
theorem pairwise_ends {start : ℕ} {entries : List (List UInt8)}
    (h : ∀ entry ∈ entries, entry ≠ []) :
    (start :: ends start entries).Pairwise (· < ·) := by
  induction entries generalizing start with
  | nil => exact List.pairwise_singleton _ _
  | cons first entries ih =>
    obtain ⟨hfirst, hrest⟩ := List.forall_mem_cons.mp h
    have hpos := List.length_pos_of_ne_nil hfirst
    refine List.pairwise_cons.mpr ⟨fun stop hstop => ?_, ih hrest⟩
    rcases List.mem_cons.mp hstop with rfl | hstop
    · omega
    · have := (mem_ends_le hstop).1
      omega

/-- A page with these entries in its entry area, and a boundary at the end of each. -/
structure HoldsEntries (page : Page) (entries : List (List UInt8)) : Prop where
  room : entries.flatten.length ≤ entryAreaLen
  area : page.slice entryAreaOffset (entryAreaOffset + entries.flatten.length) = entries.flatten
  bitmap : ∀ n, Bitmap.test (page.slice boundaryBitmapOffset entryAreaOffset) n =
    decide (n ∈ ends 0 entries)

/-- The boundaries of a page are the ends of its entries. -/
theorem HoldsEntries.boundaries_eq {page : Page} {entries : List (List UInt8)}
    (h : HoldsEntries page entries) (hne : ∀ entry ∈ entries, entry ≠ []) :
    boundaries page = ends 0 entries := by
  have hsorted := (List.pairwise_cons.mp (@pairwise_ends 0 _ hne)).2
  rw [boundaries]
  refine Bitmap.eq_of_ascending (Bitmap.pairwise_members _) hsorted fun n => ?_
  rw [Bitmap.mem_members, h.bitmap, decide_eq_true_eq]

/-- The bytes below the entries that a page keeps. -/
def SameHeader (page page' : Page) : Prop :=
  ∀ i < boundaryBitmapOffset, page'.get i = page.get i

/-- Numbers of a header that is the same. -/
theorem SameHeader.le {page page' : Page} (h : SameHeader page page') {offset w : ℕ}
    (hoffset : offset + w ≤ boundaryBitmapOffset) : page'.le offset w = page.le offset w :=
  Block.le_congr fun i hi => h (offset + i) (by omega)

/-- One more entry behind the others. -/
theorem HoldsEntries.write {page : Page} {entries : List (List UInt8)} {record child : List UInt8}
    (h : HoldsEntries page entries)
    (hroom : entries.flatten.length + (record.length + child.length) ≤ entryAreaLen) :
    let start := entryAreaOffset + entries.flatten.length
    let used := entries.flatten.length + (record.length + child.length)
    let page' := setBoundary ((page.write start record).write (start + record.length) child) used
    HoldsEntries page' (entries ++ [record ++ child]) ∧ SameHeader page page' := by
  intro start used page'
  have hlen : entryAreaLen = 1800 := rfl
  have hoffset : entryAreaOffset = 248 := rfl
  have hpage : pageBytes = 2048 := rfl
  have hbitmap : boundaryBitmapOffset = 22 := rfl
  have hflat : (entries ++ [record ++ child]).flatten.length = used := by
    simp [used]
  have hend : entryAreaOffset + used = start + record.length + child.length := by
    simp only [start, used]
    omega
  refine ⟨⟨by rw [hflat]; exact hroom, ?_, fun n => ?_⟩, fun i hi => ?_⟩
  · -- the boundary lies below the entry area
    rw [hflat]
    show (setBoundary _ _).slice _ _ = _
    have hold : entryAreaOffset ≤ start := Nat.le_add_right _ _
    rw [setBoundary, Block.slice_write_of_disjoint _ (by simp only [List.length_singleton]; omega),
      ← Block.slice_append_slice _ hold (by omega),
      ← Block.slice_append_slice _ (by omega : start ≤ start + record.length) (by omega), hend,
      Block.slice_write_self _ rfl (by omega), Block.slice_write_of_disjoint _ (by omega),
      Block.slice_write_of_disjoint _ (by omega), Block.slice_write_of_disjoint _ (by omega),
      Block.slice_write_self _ rfl (by omega), h.area]
    simp
  · show Bitmap.test ((setBoundary _ _).slice _ _) n = _
    rw [setBoundary, Block.slice_write_modify _ (fun byte => Bitmap.bytePut byte (used % 8) true)
        (by omega) (by omega), ← Bitmap.put, Bitmap.test_put (by rw [Block.length_slice]; omega),
      Block.slice_write_of_disjoint _ (by omega), Block.slice_write_of_disjoint _ (by omega),
      h.bitmap,
      ends_append_singleton, Nat.zero_add]
    by_cases hn : n = used
    · simp [hn, used]
    · have hlast : n ≠ entries.flatten.length + (record ++ child).length := by
        rw [List.length_append]
        exact hn
      simp only [if_neg hn, List.mem_append, List.mem_singleton, hlast, or_false]
  · show (setBoundary _ _).get i = _
    rw [setBoundary, Block.get_write_of_notMem (by omega), Block.get_write_of_notMem (by omega),
      Block.get_write_of_notMem (by omega)]

/-- A page below whose entries something is written keeps them. -/
theorem HoldsEntries.of_write {page : Page} {entries : List (List UInt8)} {offset : ℕ}
    {bytes : List UInt8} (h : HoldsEntries page entries)
    (hoffset : offset + bytes.length ≤ boundaryBitmapOffset) :
    HoldsEntries (page.write offset bytes) entries := by
  have hbelow : boundaryBitmapOffset ≤ entryAreaOffset := by decide
  refine ⟨h.room, ?_, fun n => ?_⟩
  · rw [Block.slice_write_of_disjoint _ (by omega)]
    exact h.area
  · rw [Block.slice_write_of_disjoint _ (by omega)]
    exact h.bitmap n

/-! ## Nodes -/

/-- The kind of page a node is written to. -/
def IndexNodeKind.pageKind : IndexNodeKind → PageKind
  | .intermediate => .intermediateIndex
  | .leaf => .leafIndex

/-- The class byte a node is written with. -/
def IndexNodeKind.classMarker : IndexNodeKind → UInt8
  | .intermediate => 1
  | .leaf => 0

/-- The page of a node with these links and entries. -/
structure NodeImage (page : Page) (owner : PageNumber) (kind : IndexNodeKind)
    (previous next : Option PageNumber) (tail : PageNumber) (entries : List (List UInt8)) :
    Prop where
  tag : page.get 0 = kind.pageKind.tag
  marker : page.get 1 = headerMarker
  free : u16At page 2 = entryAreaLen - entries.flatten.length
  owner_eq : u32At page 4 = owner
  previous_eq : u32At page 8 = previous.getD 0
  next_eq : u32At page 12 = next.getD 0
  tail_eq : u32At page 16 = tail
  prefix_eq : page.get 20 = 0
  class_eq : page.get 21 = kind.classMarker
  holds : HoldsEntries page entries

/-- The page a node is given. -/
def pageRef (pageFor : ℕ → Option PageNumber) (ordinal : ℕ) : PageNumber :=
  (pageFor ordinal).getD 0

/-- The page of a node, where it has one that fits a reference. -/
theorem pageOf_ok_iff {pageFor : ℕ → Option PageNumber} {ordinal : ℕ} {page : PageNumber} :
    pageOf pageFor ordinal = .ok page ↔ pageFor ordinal = some page ∧ page < 2 ^ 32 := by
  simp only [pageOf, bind_ok_iff, okOr_ok_iff, exists_unit, refuseIf_ok_iff, not_not, pure_ok_iff]
  constructor
  · rintro ⟨page', hpage, hlt, rfl⟩
    exact ⟨hpage, hlt⟩
  · rintro ⟨hpage, hlt⟩
    exact ⟨page, hpage, hlt, rfl⟩

namespace Node

/-- A node without children is a leaf. -/
def kind (node : Node) : IndexNodeKind :=
  if node.children.isEmpty then .leaf else .intermediate

/-- The entries written for a node; the last child of a branch has none. -/
def entryCount (node : Node) : ℕ :=
  if node.children.isEmpty then node.entries.len else node.children.len - 1

/-- The child behind the last entry of a branch. -/
def tail (node : Node) (pageFor : ℕ → Option PageNumber) : PageNumber :=
  if node.children.isEmpty then 0 else pageRef pageFor (node.children.stop - 1)

/-- The reference behind the record of an entry. -/
def reference (node : Node) (pageFor : ℕ → Option PageNumber) (position : ℕ) : List UInt8 :=
  if node.children.isEmpty then []
  else beBytes branchChildLen (pageRef pageFor (node.children.start + position))

/-- The node before this one, of those of its level. -/
def previous (node : Node) (ordinal : ℕ) : Option ℕ :=
  if 1 ≤ ordinal ∧ node.siblings.start ≤ ordinal - 1 then some (ordinal - 1) else none

/-- The node behind this one on its level. -/
def next (node : Node) (ordinal : ℕ) : Option ℕ :=
  if ordinal + 1 < node.siblings.stop then some (ordinal + 1) else none

end Node

namespace ScalarIndexPages

variable {plan : ScalarIndexPages} {records : List (List UInt8)} {pageFor : ℕ → Option PageNumber}
  {owner : PageNumber} {node : Node}

/-- The entries of a node. -/
def entriesOf (plan : ScalarIndexPages) (records : List (List UInt8))
    (pageFor : ℕ → Option PageNumber) (node : Node) (positions : List ℕ) : List (List UInt8) :=
  positions.map fun position =>
    plan.sourceRecord records node position ++ node.reference pageFor position

theorem entriesOf_append_singleton (positions : List ℕ) (position : ℕ) :
    plan.entriesOf records pageFor node (positions ++ [position]) =
      plan.entriesOf records pageFor node positions ++
        [plan.sourceRecord records node position ++ node.reference pageFor position] := by
  rw [entriesOf, List.map_append, List.map_singleton, ← entriesOf]

/-- The reference an entry ends in: the child of a branch, nothing in a leaf. -/
theorem childReference_ok_iff {position : ℕ} {child : List UInt8} :
    childReference pageFor node position = .ok child ↔
      child = node.reference pageFor position ∧ (node.children.isEmpty = false →
        ∃ page, pageFor (node.children.start + position) = some page ∧ page < 2 ^ 32) := by
  unfold childReference Node.reference
  split
  next hleaf => simp [hleaf, eq_comm]
  next hbranch =>
    simp only [bind_ok_iff, pageOf_ok_iff, pure_ok_iff, Bool.not_eq_true] at hbranch ⊢
    constructor
    · rintro ⟨page, ⟨hpage, hlt⟩, rfl⟩
      exact ⟨by rw [pageRef, hpage, Option.getD_some], fun _ => ⟨page, hpage, hlt⟩⟩
    · rintro ⟨rfl, hpage⟩
      obtain ⟨page, hpage, hlt⟩ := hpage hbranch
      exact ⟨page, ⟨hpage, hlt⟩, by rw [pageRef, hpage, Option.getD_some]⟩

/-- A reference has four bytes, and leaves have none. -/
theorem length_reference (position : ℕ) : (node.reference pageFor position).length =
    if node.children.isEmpty then 0 else branchChildLen := by
  unfold Node.reference
  split
  · rfl
  · exact length_beBytes _ _

/-- The entries of a node are written one behind the other. -/
theorem writeEntries_ok {count used : ℕ} {image image' : Page} (hempty : HoldsEntries image [])
    (h : (List.range count).foldlM (plan.writeEntry records pageFor node) (image, 0) =
      .ok (image', used)) :
    let entries := plan.entriesOf records pageFor node (List.range count)
    HoldsEntries image' entries ∧ used = entries.flatten.length ∧ SameHeader image image' ∧
      ∀ position < count, RecordFits (plan.sourceRecord records node position) ∧
        childReference pageFor node position = .ok (node.reference pageFor position) := by
  -- the entries so far stand on the page, and its header is the one before
  have hloop := foldlM_ok_induction (fun done state =>
      HoldsEntries state.1 (plan.entriesOf records pageFor node done) ∧
        state.2 = (plan.entriesOf records pageFor node done).flatten.length ∧
        SameHeader image state.1 ∧ ∀ position ∈ done,
          RecordFits (plan.sourceRecord records node position) ∧
            childReference pageFor node position = .ok (node.reference pageFor position))
    ⟨hempty, rfl, fun _ _ => rfl, by simp⟩
    (by
      rintro done position rest ⟨page, used⟩ state' - ⟨hholds, hused, hsame, hdone⟩ hstep
      dsimp only at hholds hused hsame
      simp only [writeEntry, bind_ok_iff, exists_unit, refuseIf_ok_iff, not_not, not_lt, gt_iff_lt,
        pure_ok_iff] at hstep
      obtain ⟨hfits, hroom, child, hchild, rfl⟩ := hstep
      obtain ⟨rfl, -⟩ := childReference_ok_iff.mp hchild
      have hlength := @length_reference pageFor node position
      rw [← hlength, hused] at hroom ⊢
      obtain ⟨hnew, hheader⟩ :=
        @HoldsEntries.write _ _ _ (node.reference pageFor position) hholds hroom
      refine ⟨?_, ?_, fun i hi => (hheader i hi).trans (hsame i hi), ?_⟩
      · rw [entriesOf_append_singleton]
        exact hnew
      · rw [entriesOf_append_singleton, List.flatten_append, List.length_append,
          List.flatten_singleton, List.length_append]
      · intro other hother
        rcases List.mem_append.mp hother with hold | hlast
        · exact hdone other hold
        · rw [List.mem_singleton.mp hlast]
          exact ⟨hfits, hchild⟩) h
  obtain ⟨hholds, hused, hsame, hfits⟩ := hloop
  exact ⟨hholds, hused, hsame, fun position hposition =>
    hfits position (List.mem_range.mpr hposition)⟩

/-! ## Whole pages -/

/-- A link is written; where there is none, the zero in its place is left. -/
theorem writeLink_ok {offset : ℕ} {target : Option ℕ} {image image' : Page}
    (hzero : image.slice offset (offset + 4) = leBytes 4 0)
    (h : writeLink pageFor offset target image = .ok image') :
    image' = image.write offset (leBytes 4 ((target.map (pageRef pageFor)).getD 0)) ∧
      (target.map (pageRef pageFor)).getD 0 < 2 ^ 32 := by
  cases target with
  | none =>
    cases h
    refine ⟨(write_slice ?_).symm, Nat.two_pow_pos 32⟩
    rw [length_leBytes]
    exact hzero
  | some ordinal =>
    simp only [writeLink, bind_ok_iff, pageOf_ok_iff, pure_ok_iff] at h
    obtain ⟨page, ⟨hpage, hlt⟩, rfl⟩ := h
    have href : pageRef pageFor ordinal = page := by rw [pageRef, hpage, Option.getD_some]
    rw [Option.map_some, Option.getD_some, href]
    exact ⟨rfl, hlt⟩

/-- The links and the bitmap of a new header are zero. -/
theorem slice_writeHeader {original : Page} {branch : Bool} {start width : ℕ}
    (hstart : 8 ≤ start) (hstop : start + width ≤ entryAreaOffset)
    (hclass : start + width ≤ 21 ∨ 22 ≤ start) :
    (writeHeader original owner branch).slice start (start + width) = List.replicate width 0 := by
  have hoffset : entryAreaOffset = 248 := rfl
  have hpage : pageBytes = 2048 := rfl
  refine Block.slice_eq_of_getD (by simp) fun i hi => ?_
  rw [writeHeader, Block.get_write_of_notMem (by simp only [List.length_singleton]; omega),
    Block.get_write_of_mem (by omega) (by rw [List.length_replicate]; omega) (by omega),
    List.getD_eq_getElem?_getD, List.getD_eq_getElem?_getD,
    List.getElem?_replicate_of_lt (by omega),
    List.getElem?_replicate_of_lt (by omega)]

/-- The fields of a written header. -/
theorem writeHeader_fields (original : Page) (branch : Bool) (howner : owner < 2 ^ 32) :
    (writeHeader original owner branch).get 0 = (if branch then 3 else 4) ∧
      (writeHeader original owner branch).get 1 = 1 ∧
      (writeHeader original owner branch).get 20 = 0 ∧
      (writeHeader original owner branch).get 21 = (if branch then 1 else 0) ∧
      (writeHeader original owner branch).le 4 4 = owner := by
  have hpage : pageBytes = 2048 := rfl
  have hoffset : entryAreaOffset = 248 := rfl
  refine ⟨?_, ?_, ?_, ?_, ?_⟩
  · rw [writeHeader, Block.get_write_of_notMem (by omega), Block.get_write_of_notMem (by omega),
      Block.get_write_of_notMem (by omega), Block.get_write_of_notMem (by omega),
      Block.get_write_of_mem (by omega) (by rw [List.length_singleton]; omega) (by omega)]
    rfl
  · rw [writeHeader, Block.get_write_of_notMem (by omega), Block.get_write_of_notMem (by omega),
      Block.get_write_of_notMem (by omega),
      Block.get_write_of_mem (by omega) (by rw [List.length_singleton]; omega) (by omega)]
    rfl
  · rw [writeHeader, Block.get_write_of_notMem (by omega),
      Block.get_write_of_mem (by omega) (by rw [List.length_replicate]; omega) (by omega),
      List.getD_eq_getElem?_getD, List.getElem?_replicate_of_lt (by omega), Option.getD_some]
  · rw [writeHeader, Block.get_write_of_mem (by omega) (by rw [List.length_singleton]; omega)
      (by omega)]
    rfl
  · rw [writeHeader, Block.le_write_of_disjoint _ (by omega),
      Block.le_write_of_disjoint _ (by omega),
      Block.le_write_self _ (length_leBytes _ _) (by omega), leValue_leBytes_of_lt howner]

/-- A node that is written has its page. -/
theorem image_ok {ordinal : ℕ} {original page : Page}
    (h : plan.image ordinal records pageFor owner original = .ok page) :
    ∃ node, plan.nodes[ordinal]? = some node ∧
      NodeImage page owner node.kind ((node.previous ordinal).map (pageRef pageFor))
        ((node.next ordinal).map (pageRef pageFor)) (node.tail pageFor)
        (plan.entriesOf records pageFor node (List.range node.entryCount)) ∧
      ∀ position < node.entryCount, RecordFits (plan.sourceRecord records node position) ∧
        childReference pageFor node position = .ok (node.reference pageFor position) := by
  have hpage : pageBytes = 2048 := rfl
  simp only [image, bind_ok_iff, exists_unit, okOr_ok_iff, refuseIf_ok_iff, Prod.exists,
    pure_ok_iff, not_not] at h
  obtain ⟨node, hnode, -, howner, -, -, image₁, h₁, image₂, h₂, image₃, h₃, image₄, used, hloop,
    rfl⟩ := h
  refine ⟨node, hnode, ?_⟩
  -- the three links, over the zeros of the new header
  obtain ⟨rfl, hprevious⟩ :=
    writeLink_ok (by exact slice_writeHeader le_rfl (by decide) (by decide)) h₁
  obtain ⟨rfl, hnext⟩ := writeLink_ok (by
    rw [Block.slice_write_of_disjoint _ (by rw [length_leBytes]; omega)]
    exact slice_writeHeader (by decide) (by decide) (by decide)) h₂
  obtain ⟨rfl, htail⟩ := writeLink_ok (by
    rw [Block.slice_write_of_disjoint _ (by rw [length_leBytes]; omega),
      Block.slice_write_of_disjoint _ (by rw [length_leBytes]; omega)]
    exact slice_writeHeader (by decide) (by decide) (by decide)) h₃
  have hcount : (if (!node.children.isEmpty) =
    true then node.children.len - 1 else node.entries.len) =
      node.entryCount := by
    unfold Node.entryCount
    cases node.children.isEmpty <;> rfl
  have htail_eq :
    ((if (!node.children.isEmpty) = true then some (node.children.stop - 1) else none).map
      (pageRef pageFor)).getD 0 = node.tail pageFor := by
    unfold Node.tail
    cases node.children.isEmpty <;> rfl
  rw [hcount, htail_eq] at hloop
  rw [htail_eq] at htail
  obtain ⟨hholds, rfl, hsame, hfits⟩ := writeEntries_ok (by
    refine ⟨Nat.zero_le _, by simp [Block.slice], fun n => ?_⟩
    rw [Block.slice_write_of_disjoint _ (by rw [length_leBytes, boundaryBitmapOffset]; omega),
      Block.slice_write_of_disjoint _ (by rw [length_leBytes, boundaryBitmapOffset]; omega),
      Block.slice_write_of_disjoint _ (by rw [length_leBytes, boundaryBitmapOffset]; omega)]
    have hzero := @slice_writeHeader owner original (!node.children.isEmpty) boundaryBitmapOffset
      (entryAreaOffset - boundaryBitmapOffset) (by decide) (by decide) (by decide)
    rw [show boundaryBitmapOffset + (entryAreaOffset - boundaryBitmapOffset) =
      entryAreaOffset from rfl]
      at hzero
    rw [hzero, Bitmap.test_replicate_zero]
    rfl) hloop
  refine ⟨?_, hfits⟩
  have hroom := hholds.room
  have harea : entryAreaLen = 1800 := rfl
  have hbitmap : boundaryBitmapOffset = 22 := rfl
  have hget : ∀ i < boundaryBitmapOffset, (i < 2 ∨ 4 ≤ i) →
      (image₄.write 2 (leBytes 2 (entryAreaLen - (plan.entriesOf records pageFor node
        (List.range node.entryCount)).flatten.length))).get i = image₄.get i := fun i hi hfree =>
    Block.get_write_of_notMem (by rw [length_leBytes]; omega)
  have hle : ∀ offset w, offset + w ≤ boundaryBitmapOffset → 4 ≤ offset →
      (image₄.write 2 (leBytes 2 (entryAreaLen - (plan.entriesOf records pageFor node
        (List.range node.entryCount)).flatten.length))).le offset w = _ := fun offset w hw hfree =>
    (Block.le_write_of_disjoint _ (by rw [length_leBytes]; omega)).trans (hsame.le hw)
  -- the links lie apart from the other fields of the header
  have hheader : ∀ i < boundaryBitmapOffset, (i < 2 ∨ 4 ≤ i) → (i < 8 ∨ 20 ≤ i) → _ :=
    fun i hi hfree hlinks => (hget i hi hfree).trans ((hsame i hi).trans
      ((Block.get_write_of_notMem (by rw [length_leBytes]; omega)).trans
        ((Block.get_write_of_notMem (by rw [length_leBytes]; omega)).trans
          (Block.get_write_of_notMem (by rw [length_leBytes]; omega)))))
  obtain ⟨htag, hmarker, hprefix, hclass, hfield⟩ :=
    writeHeader_fields original (!node.children.isEmpty) howner
  exact
    { tag := by
        rw [hheader 0 (by decide) (by decide) (by decide), htag, Node.kind]
        cases node.children.isEmpty <;> rfl
      marker := (hheader 1 (by decide) (by decide) (by decide)).trans hmarker
      free := by
        rw [u16At, Block.le_write_self _ (length_leBytes _ _) (by omega), leValue_leBytes_of_lt]
        omega
      owner_eq := by
        rw [u32At, hle 4 4 (by decide) (by decide),
          Block.le_write_of_disjoint _ (by rw [length_leBytes]; omega),
          Block.le_write_of_disjoint _ (by rw [length_leBytes]; omega),
          Block.le_write_of_disjoint _ (by rw [length_leBytes]; omega), hfield]
      previous_eq := by
        rw [u32At, hle 8 4 (by decide) (by decide),
          Block.le_write_of_disjoint _ (by rw [length_leBytes]; omega),
          Block.le_write_of_disjoint _ (by rw [length_leBytes]; omega),
          Block.le_write_self _ (length_leBytes _ _) (by omega), leValue_leBytes_of_lt hprevious]
        rfl
      next_eq := by
        rw [u32At, hle 12 4 (by decide) (by decide),
          Block.le_write_of_disjoint _ (by rw [length_leBytes]; omega),
          Block.le_write_self _ (length_leBytes _ _) (by omega), leValue_leBytes_of_lt hnext]
        rfl
      tail_eq := by
        rw [u32At, hle 16 4 (by decide) (by decide),
          Block.le_write_self _ (length_leBytes _ _) (by omega), leValue_leBytes_of_lt htail]
      prefix_eq := (hheader 20 (by decide) (by decide) (by decide)).trans hprefix
      class_eq := by
        rw [hheader 21 (by decide) (by decide) (by decide), hclass, Node.kind]
        cases node.children.isEmpty <;> rfl
      holds := hholds.of_write (by rw [length_leBytes]; decide) }

end ScalarIndexPages

end Jet3
