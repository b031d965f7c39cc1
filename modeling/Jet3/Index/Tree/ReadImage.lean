import Jet3.Index.Entry
import Jet3.Index.Tree.NodeImage
import Jet3.Index.Tree.Traversal

/-!
# Reading written index pages

The page of a written node is accepted, and its entries are read back: the keys and rows of a leaf,
the children of a branch.

* `NodeImage.parseNode` is the header with its links and boundaries;
* `NodeImage.leafEntries` and `NodeImage.childNodes` are the entries.
-/

namespace Jet3

open Outcome

/-! ## The header -/

/-- The boundaries of packed entries are accepted. -/
theorem checkBoundaries_ends {page : PageNumber} {start count : ℕ} {entries : List (List UInt8)}
    (hne : ∀ entry ∈ entries, entry ≠ []) (hroom : start + entries.flatten.length ≤ entryAreaLen) :
    (ends start entries).foldlM (checkBoundary page) (start, count) =
      .ok (start + entries.flatten.length, count + entries.length) := by
  induction entries generalizing start count with
  | nil => rfl
  | cons entry entries ih =>
    obtain ⟨hentry, hrest⟩ := List.forall_mem_cons.mp hne
    have hpos := List.length_pos_of_ne_nil hentry
    rw [List.flatten_cons, List.length_append] at hroom ⊢
    have hstep : checkBoundary page (start, count) (start + entry.length) =
        .ok (start + entry.length, count + 1) := by
      simp only [checkBoundary, bind_ok_iff, exists_unit, refuseIf_ok_iff, pure_ok_iff]
      exact ⟨by omega, by omega, trivial⟩
    rw [ends, List.foldlM_cons, hstep]
    show (ends (start + entry.length) entries).foldlM (checkBoundary page)
      (start + entry.length, count + 1) = _
    rw [ih hrest (by omega), List.length_cons]
    congr 2 <;> omega

/-- A link that may stand on a page. -/
def LinkFits (pageCount : ℕ) (containing : PageNumber) (link : Option PageNumber) : Prop :=
  ∀ page, link = some page → page ≠ 0 ∧ page ≠ containing ∧ page < pageCount

/-- A stored link is read back. -/
theorem optionalReference_eq {page : Page} {offset pageCount : ℕ} {containing : PageNumber}
    {link : Option PageNumber} (role : String) (h : u32At page offset = link.getD 0)
    (hlink : LinkFits pageCount containing link) :
    optionalReference page offset containing role pageCount = .ok link := by
  unfold optionalReference
  dsimp only
  rw [h]
  cases link with
  | none => rfl
  | some target =>
    obtain ⟨hzero, hself, hlt⟩ := hlink target rfl
    rw [Option.getD_some, if_neg hzero]
    simp only [bind_ok_iff, exists_unit, refuseIf_ok_iff, validateIndexReference, mapError_ok_iff,
      validateReference, not_not, pure_ok_iff]
    exact ⟨hself, hlt, trivial⟩

namespace NodeImage

variable {page : Page} {owner : PageNumber} {kind : IndexNodeKind}
  {previous next : Option PageNumber}
  {tail : PageNumber} {entries : List (List UInt8)} {pending : PendingNode} {pageCount : ℕ}

/-- A node page is classified by its kind. -/
theorem classifyPage_eq (h : NodeImage page owner kind previous next tail entries)
    {number : PageNumber} (hnumber : number ≠ 0) : classifyPage number page = kind.pageKind := by
  have hkind : ∀ tag, kind.pageKind ≠ .unknown tag := by
    cases kind <;> simp [IndexNodeKind.pageKind]
  have hzero : kind.pageKind ≠ .databaseDefinition := by
    cases kind <;> decide
  exact (classifyPage_eq_iff hnumber hkind hzero).mpr h.tag

/-- The node on a page. -/
def parsedNode (pending : PendingNode) (kind : IndexNodeKind) (previous next : Option PageNumber)
    (tail : PageNumber) : ParsedNode :=
  { node := { page := pending.page, kind, depth := pending.depth, previous, next }
    prefixLen := 0, tailChild := tail }

/-- The page of a written node is accepted. -/
theorem parseNode (h : NodeImage page owner kind previous next tail entries)
    (hpage : pending.page ≠ 0)
    (hprevious : LinkFits pageCount pending.page previous)
    (hnext : LinkFits pageCount pending.page next)
    (htail : validTailChild kind tail = true) (hne : ∀ entry ∈ entries, entry ≠ [])
    (hbranch : kind = .intermediate → entries ≠ []) :
    Jet3.parseNode (classifyPage pending.page page) pending owner pageCount page =
      .ok (parsedNode pending kind previous next tail) := by
  have hkind : nodeKind pending.page (classifyPage pending.page page) = .ok kind := by
    rw [h.classifyPage_eq hpage]
    cases kind <;> rfl
  have hmarker : validMarker kind (page.get 21) = true := by
    rw [h.class_eq]
    cases kind <;> rfl
  have hshared : (page.get 20).toNat = 0 := by rw [h.prefix_eq]; rfl
  have hbounds := @checkBoundaries_ends pending.page 0 0 _ hne
    (by rw [Nat.zero_add]; exact h.holds.room)
  rw [Nat.zero_add, Nat.zero_add] at hbounds
  simp only [Jet3.parseNode, bind_ok_iff, exists_unit, refuseIf_ok_iff, Prod.exists, pure_ok_iff]
  refine ⟨kind, hkind, fun hne => hne h.marker, fun hne => hne h.owner_eq, by rw [hmarker]; simp,
    previous, optionalReference_eq _ h.previous_eq hprevious, next,
    optionalReference_eq _ h.next_eq hnext, by rw [h.tail_eq, htail]; simp, _, _,
    by rw [hshared, h.holds.boundaries_eq hne]; exact hbounds, ?_, fun hfree =>
      hfree h.free, ?_, ?_⟩
  · exact fun hempty => hempty.2 hshared
  · rintro ⟨hintermediate, hcount, -⟩
    exact hbranch hintermediate (List.length_eq_zero_iff.mp hcount)
  · rw [h.tail_eq, hshared]
    rfl

end NodeImage

/-! ## Entries -/

/-- An entry is read where it was written. -/
theorem HoldsEntries.entryBytes_eq {page : Page} {front back : List (List UInt8)}
    {entry : List UInt8}
    (h : HoldsEntries page (front ++ entry :: back)) :
    entryBytes page 0 front.flatten.length (front.flatten.length + entry.length) = entry := by
  have harea := h.area
  have hflat : (front ++ entry :: back).flatten = front.flatten ++ (entry ++ back.flatten) := by
    rw [List.flatten_append, List.flatten_cons]
  rw [hflat] at harea
  have hpiece := congrArg (fun bytes : List UInt8 =>
    (bytes.drop front.flatten.length).take entry.length) harea
  rw [Block.take_drop_slice _ (by rw [List.length_append, List.length_append]; omega),
    List.drop_left' rfl, List.take_left' rfl] at hpiece
  have hempty : page.slice entryAreaOffset (entryAreaOffset + 0) = [] := by
    rw [← List.length_eq_zero_iff, Block.length_slice]
    omega
  rw [entryBytes, hempty, List.nil_append, ← Nat.add_assoc]
  exact hpiece

/-- A loop over the entries of a page meets each of them. -/
theorem foldlM_ends {α : Type} {page : Page} {g : ℕ → List UInt8 → Except IndexTreeError α}
    {front back : List (List UInt8)} (h : HoldsEntries page (front ++ back)) {done out : List α}
    (hout : List.Forall₂ (fun entry a => g entry.2 entry.1 = .ok a) (back.zipIdx front.length)
      out) :
    ((ends front.flatten.length back).zipIdx front.length).foldlM
      (fun (state : List α × ℕ) entry => do
        let new ← g entry.2 (entryBytes page 0 state.2 entry.1)
        return (state.1 ++ [new], entry.1)) (done, front.flatten.length) =
      .ok (done ++ out, (front ++ back).flatten.length) := by
  induction back generalizing front done out with
  | nil =>
    cases hout
    rw [List.append_nil, List.append_nil]
    rfl
  | cons entry back ih =>
    rw [List.zipIdx_cons] at hout
    obtain ⟨a, rest, ha, hrest, rfl⟩ := List.forall₂_cons_left_iff.mp hout
    have hsnoc : front ++ entry :: back = front ++ [entry] ++ back := by simp
    have hlength : (front ++ [entry]).flatten.length = front.flatten.length + entry.length := by
      rw [List.flatten_append, List.length_append, List.flatten_singleton]
    have hcount : (front ++ [entry]).length = front.length + 1 := by
      rw [List.length_append, List.length_singleton]
    have hnext := @ih (front ++ [entry]) (hsnoc ▸ h) (done ++ [a]) rest (hcount ▸ hrest)
    rw [hlength, hcount] at hnext
    rw [ends, List.zipIdx_cons, List.foldlM_cons, h.entryBytes_eq]
    simp only [ha, bind, Except.bind, pure, Except.pure]
    simp only [bind, Except.bind, pure, Except.pure] at hnext
    rw [hnext, hsnoc]
    simp

/-- The locator at the end of an entry is read back. -/
theorem beValue_take_locator (locator : RowLocator) (rest : List UInt8)
    (h : locator.page < 2 ^ 24) : trailerLocator (locator.bytes ++ rest) = locator := by
  have hlength : (beBytes 3 locator.page).length = 3 := length_beBytes _ _
  have htake : (locator.bytes ++ rest).take 3 = beBytes 3 locator.page := by
    rw [RowLocator.bytes, List.append_assoc, List.take_left' hlength]
  have hslot : byteAt (locator.bytes ++ rest) 3 = locator.slot := by
    rw [byteAt, RowLocator.bytes, List.append_assoc, List.getD_eq_getElem?_getD,
      List.getElem?_append_right (by omega), hlength]
    rfl
  rw [trailerLocator, htake, hslot, beValue_beBytes_of_lt (by omega)]

theorem length_locatorBytes (locator : RowLocator) : locator.bytes.length = 4 := by
  rw [RowLocator.bytes, List.length_append, length_beBytes, List.length_singleton]

section Entries

variable {table : TableDefinition} {physical : PhysicalIndexDefinition} {pageCount : ℕ}
  {key : List UInt8} {locator : RowLocator}

/-- The entry a reader makes of a key and a locator. -/
def readEntry (physical : PhysicalIndexDefinition) (table : TableDefinition) (key : List UInt8)
    (locator : RowLocator) : IndexEntry :=
  { key := { raw := key, encoding := classifyKey key physical table }, row := locator }

/-- A leaf entry is read back as its key and its row. -/
theorem leafEntry_eq (page : PageNumber) (ordinal : ℕ) (hkey : key ≠ [])
    (hsmall : locator.page < 2 ^ 24)
    (hpage : locator.page < pageCount) :
    leafEntry page pageCount physical table ordinal (key ++ locator.bytes) =
      .ok (readEntry physical table key locator) := by
  have hlength := length_locatorBytes locator
  have hpos := List.length_pos_of_ne_nil hkey
  have hkeyLen : (key ++ locator.bytes).length - leafTrailerLen = key.length := by
    rw [List.length_append, hlength, leafTrailerLen]
    omega
  have hlocator := beValue_take_locator locator [] hsmall
  rw [List.append_nil] at hlocator
  simp only [leafEntry, bind_ok_iff, exists_unit, refuseIf_ok_iff, validateIndexReference,
    mapError_ok_iff, validateReference, not_not, not_le, pure_ok_iff]
  rw [hkeyLen, List.drop_left' rfl, List.take_left' rfl, hlocator]
  refine ⟨?_, hpage, rfl⟩
  rw [List.length_append, hlength, leafTrailerLen]
  omega

/-- A branch entry is read back as its child. -/
theorem branchChild_eq {page child : PageNumber} (ordinal : ℕ) (hkey : key ≠ [])
    (hsmall : locator.page < 2 ^ 24) (hpage : locator.page < pageCount) (hwidth : child < 2 ^ 32)
    (hself : child ≠ page) (hchild : child < pageCount) :
    branchChild page pageCount ordinal (key ++ locator.bytes ++ beBytes branchChildLen child) =
      .ok child := by
  have hlength := length_locatorBytes locator
  have hreference : (beBytes branchChildLen child).length = branchChildLen := length_beBytes _ _
  have hpos := List.length_pos_of_ne_nil hkey
  have htrailer : (key ++ locator.bytes ++ beBytes branchChildLen child).length -
      (leafTrailerLen + branchChildLen) = key.length := by
    rw [List.length_append, List.length_append, hlength, hreference, leafTrailerLen]
    omega
  simp only [branchChild, validateChild, bind_ok_iff, exists_unit, refuseIf_ok_iff,
    validateIndexReference, mapError_ok_iff, validateReference, not_not, not_le, pure_ok_iff]
  rw [htrailer, List.append_assoc, List.drop_left' rfl, beValue_take_locator locator _ hsmall,
    List.drop_left' (show locator.bytes.length = leafTrailerLen from hlength),
    beValue_beBytes_of_lt hwidth]
  refine ⟨?_, hpage, ⟨hself, hchild⟩, rfl⟩
  rw [List.length_append, List.length_append, hlength, hreference, leafTrailerLen]
  omega

end Entries

namespace NodeImage

variable {page : Page} {owner : PageNumber} {previous next : Option PageNumber} {tail : PageNumber}
  {table : TableDefinition} {physical : PhysicalIndexDefinition} {pending : PendingNode}
  {pageCount : ℕ}

/-- The entries of a written leaf. -/
theorem leafEntries {entries : List ScalarIndexEntry}
    (h : NodeImage page owner .leaf previous next tail (entries.map ScalarIndexEntry.record))
    (hkeys : ∀ entry ∈ entries, entry.key ≠ [] ∧ entry.locator.page < 2 ^ 24 ∧
      entry.locator.page < pageCount) :
    Jet3.leafEntries page (parsedNode pending .leaf previous next tail) physical table pageCount =
      .ok (entries.map fun entry => readEntry physical table entry.key entry.locator) := by
  have hne : ∀ record ∈ entries.map ScalarIndexEntry.record, record ≠ [] := by
    intro record hrecord
    obtain ⟨entry, hentry, rfl⟩ := List.mem_map.mp hrecord
    exact List.append_ne_nil_of_left_ne_nil (hkeys entry hentry).1 _
  have hloop := @foldlM_ends _ page (leafEntry pending.page pageCount physical table) [] _
    h.holds [] (entries.map fun entry => readEntry physical table entry.key entry.locator) (by
      rw [List.length_nil, List.zipIdx_map]
      refine List.forall₂_map_left_iff.mpr ?_
      have hfirst : entries = (entries.zipIdx).map Prod.fst := (List.zipIdx_map_fst 0 entries).symm
      nth_rewrite 2 [hfirst]
      rw [List.map_map]
      refine List.forall₂_map_right_iff.mpr (List.forall₂_same.mpr ?_)
      rintro ⟨entry, ordinal⟩ hentry
      obtain ⟨hkey, hsmall, hlt⟩ := hkeys entry (List.fst_mem_of_mem_zipIdx hentry)
      exact leafEntry_eq pending.page ordinal hkey hsmall hlt)
  rw [List.length_nil, List.flatten_nil, List.length_nil, List.nil_append, List.nil_append] at hloop
  simp only [Jet3.leafEntries, h.holds.boundaries_eq hne, bind_ok_iff, pure_ok_iff]
  exact ⟨_, hloop, rfl⟩

/-- The children of a written branch. -/
theorem childNodes {entries : List (ScalarIndexEntry × PageNumber)}
    (h : NodeImage page owner .intermediate previous next tail
      (entries.map fun entry => entry.1.record ++ beBytes branchChildLen entry.2))
    (hkeys : ∀ entry ∈ entries, entry.1.key ≠ [] ∧ entry.1.locator.page < 2 ^ 24 ∧
      entry.1.locator.page < pageCount)
    (hchildren : ∀ child ∈ entries.map Prod.snd ++ [tail],
      child < 2 ^ 32 ∧ child ≠ pending.page ∧ child < pageCount) :
    Jet3.childNodes page (parsedNode pending .intermediate previous next tail) pageCount =
      .ok ((entries.map Prod.snd ++ [tail]).map fun child =>
        { page := child, depth := pending.depth + 1 }) := by
  have hne : ∀ record ∈ entries.map fun entry : ScalarIndexEntry × PageNumber =>
      entry.1.record ++ beBytes branchChildLen entry.2, record ≠ [] := by
    intro record hrecord
    obtain ⟨entry, hentry, rfl⟩ := List.mem_map.mp hrecord
    exact List.append_ne_nil_of_left_ne_nil
      (List.append_ne_nil_of_left_ne_nil (hkeys entry hentry).1 _) _
  -- the children of the separators, entry by entry
  have hloop := @foldlM_ends _ page (fun ordinal raw => do
      let child ← branchChild pending.page pageCount ordinal raw
      return ({ page := child, depth := pending.depth + 1 } : PendingNode)) [] _ h.holds []
    (entries.map fun entry => ({ page := entry.2, depth := pending.depth + 1 } : PendingNode)) (by
      rw [List.length_nil, List.zipIdx_map]
      refine List.forall₂_map_left_iff.mpr ?_
      have hfirst : entries = (entries.zipIdx).map Prod.fst := (List.zipIdx_map_fst 0 entries).symm
      nth_rewrite 2 [hfirst]
      rw [List.map_map]
      refine List.forall₂_map_right_iff.mpr (List.forall₂_same.mpr ?_)
      rintro ⟨⟨entry, child⟩, ordinal⟩ hmem
      have hentry := List.fst_mem_of_mem_zipIdx hmem
      obtain ⟨hkey, hsmall, hlt⟩ := hkeys (entry, child) hentry
      obtain ⟨hwidth, hself, hinside⟩ := hchildren child
        (List.mem_append_left _ (List.mem_map_of_mem hentry))
      have hchild := branchChild_eq ordinal hkey hsmall hlt hwidth hself hinside
      show (branchChild pending.page pageCount ordinal (entry.record ++ _) >>= _) = _
      rw [ScalarIndexEntry.record, hchild]
      rfl)
  rw [List.length_nil, List.flatten_nil, List.length_nil, List.nil_append, List.nil_append] at hloop
  -- the tail is the last child
  obtain ⟨-, hself, hinside⟩ := hchildren tail (List.mem_append_right _ List.mem_cons_self)
  simp only [Jet3.childNodes, h.holds.boundaries_eq hne, bind_ok_iff, exists_unit, pure_ok_iff,
    validateChild, refuseIf_ok_iff, validateIndexReference, mapError_ok_iff, validateReference,
    not_not]
  refine ⟨(entries.map fun entry => { page := entry.2, depth := pending.depth + 1 },
    (entries.map fun entry => entry.1.record ++ beBytes branchChildLen entry.2).flatten.length),
    ?_, ⟨hself, hinside⟩, ?_⟩
  · have hstep : appendChild page (parsedNode pending .intermediate previous next tail) pageCount =
        fun (state : List PendingNode × ℕ) entry => do
          let new ← branchChild pending.page pageCount entry.2
            (entryBytes page 0 state.2 entry.1) >>=
            fun child => pure { page := child, depth := pending.depth + 1 }
          return (state.1 ++ [new], entry.1) := by
      funext state entry
      simp only [bind_assoc, pure_bind]
      rfl
    rw [hstep]
    exact hloop
  · rw [List.map_append, List.map_map]
    rfl

end NodeImage

end Jet3
