import Jet3.Format.DataPageDirectory
import Jet3.Format.PageKind
import Jet3.Library.Bitmap

/-!
# Building index trees

The pages of an index are planned from its sorted records: greedily filled leaves first, then one
level of branches after the other, the root last. A separator is the complete last record of the
child before it.

* `ScalarIndexPages.new` plans the nodes;
* `ScalarIndexPages.image` writes one of them over a page that is reused.
-/

namespace Jet3

open Outcome

/-- Where the entries of a node start. -/
def entryAreaOffset : ℕ := 248

/-- `AREA_BYTES`. -/
def entryAreaLen : ℕ := pageBytes - entryAreaOffset

/-- Where the bitmap of the entry boundaries starts. -/
def boundaryBitmapOffset : ℕ := 22

/-- `CHILD_BYTES`, `BRANCH_CHILD_LEN`. -/
def branchChildLen : ℕ := 4

/-- Why the entries have no tree. -/
inductive TreeBuildError where
  | nodeLimit (maximum : ℕ)
  | layout (operation : String)
  | encoding (source : Error)
  deriving DecidableEq, Repr

/-- A planned node: the records below it, the nodes below a branch, and the nodes of its level. -/
structure Node where
  entries : Range
  children : Range
  siblings : Range
  deriving DecidableEq, Repr

/-- Every record must fit beside a second separator, so that no branch has a single child. -/
def RecordFits (record : List UInt8) : Prop :=
  5 ≤ record.length ∧ record.length ≤ entryAreaLen / 2 - branchChildLen

instance (record : List UInt8) : Decidable (RecordFits record) :=
  inferInstanceAs (Decidable (_ ∧ _))

/-- `nodes[ordinal]`. -/
def nodeAt (nodes : List Node) (ordinal : ℕ) : Node :=
  nodes.getD ordinal { entries := ⟨0, 0⟩, children := ⟨0, 0⟩, siblings := ⟨0, 0⟩ }

/-- The last record below a node. -/
def maximumRecord (records : List (List UInt8)) (nodes : List Node) (ordinal : ℕ) : List UInt8 :=
  records.getD ((nodeAt nodes ordinal).entries.stop - 1) []

/-! ## Planning -/

/-- `push`. -/
def pushNode (maximum : ℕ) (nodes : List Node) (entries children : Range) :
    Except TreeBuildError (List Node) := do
  refuseIf (nodes.length = maximum) (.nodeLimit maximum)
  return nodes ++ [{ entries, children, siblings := ⟨0, 0⟩ }]

/-- The leaves so far, and the first record and the used bytes of the current one. -/
structure LeafState where
  nodes : List Node
  first : ℕ
  used : ℕ

/-- Closes the current leaf where the next record, of this width, does not fit. -/
def closeLeaf (maximum ordinal width : ℕ) (state : LeafState) : Except TreeBuildError LeafState :=
  if state.used + width > entryAreaLen then do
    let nodes ← pushNode maximum state.nodes ⟨state.first, ordinal⟩ ⟨0, 0⟩
    return { nodes, first := ordinal, used := 0 }
  else .ok state

/-- Puts one entry on the last leaf, or on a new one where it does not fit. -/
def leafStep (maximum : ℕ) (state : LeafState) (entry : List UInt8 × ℕ) :
    Except TreeBuildError LeafState := do
  refuseIf (¬RecordFits entry.1) (.layout "record width")
  let state ← closeLeaf maximum entry.2 entry.1.length state
  return { state with used := state.used + entry.1.length }

/-- The leaves of the entries, in order. -/
def leafNodes (records : List (List UInt8)) (maximum : ℕ) : Except TreeBuildError (List Node) := do
  let state ← records.zipIdx.foldlM (leafStep maximum) { nodes := [], first := 0, used := 0 }
  pushNode maximum state.nodes ⟨state.first, records.length⟩ ⟨0, 0⟩

/-- The nodes from `start` on form a level. -/
def linkSiblings (nodes : List Node) (start : ℕ) : List Node :=
  nodes.take start ++ (nodes.drop start).map fun node =>
    { node with siblings := ⟨start, nodes.length⟩ }

/-- The end of a group of children: as many as there is room for separators, of those that
remain. -/
def groupEnd (records : List (List UInt8)) (nodes : List Node) : ℕ → ℕ → ℕ → ℕ
  | 0, stop, _ => stop
  | remaining + 1, stop, used =>
    let width := (maximumRecord records nodes (stop - 1)).length + branchChildLen
    if used + width > entryAreaLen then stop
    else groupEnd records nodes remaining (stop + 1) (used + width)

/-- The group that starts at `first`. It leaves more than one node of the level, or none. -/
def childGroup (records : List (List UInt8)) (nodes : List Node) (previous : Range) (first : ℕ) :
    Range :=
  let stop := groupEnd records nodes (previous.stop - (first + 1)) (first + 1) 0
  { start := first, stop := if previous.stop - stop = 1 then stop - 1 else stop }

/-- The branches above a level; nothing where the fuel runs out. -/
def parentNodes (records : List (List UInt8)) (maximum : ℕ) (previous : Range) :
    ℕ → List Node → ℕ → Except TreeBuildError (Option (List Node))
  | 0, _, _ => .ok none
  | fuel + 1, nodes, first =>
    if first < previous.stop then do
      let group := childGroup records nodes previous first
      let entries : Range :=
        { start := (nodeAt nodes group.start).entries.start
          stop := (nodeAt nodes (group.stop - 1)).entries.stop }
      let nodes ← pushNode maximum nodes entries group
      parentNodes records maximum previous fuel nodes group.stop
    else .ok (some nodes)

/-- The levels above `previous`, up to the root. -/
def levelNodes (records : List (List UInt8)) (maximum : ℕ) :
    ℕ → List Node → Range → Except TreeBuildError (Option (List Node))
  | 0, _, _ => .ok none
  | fuel + 1, nodes, previous =>
    if previous.len > 1 then do
      match ← parentNodes records maximum previous (previous.len + 1) nodes previous.start with
      | none => return none
      | some parents =>
        levelNodes records maximum fuel (linkSiblings parents nodes.length)
          ⟨nodes.length, parents.length⟩
    else .ok (some nodes)

/-- The nodes of a planned tree: the leaves, then each level above them, the root last. -/
structure ScalarIndexPages where
  nodes : List Node
  deriving DecidableEq, Repr

namespace ScalarIndexPages

/-- Plans leaves first and the root last; nothing where the fuel runs out. -/
def new (records : List (List UInt8)) (maximum : ℕ) :
    Except TreeBuildError (Option ScalarIndexPages) := do
  let leaves ← leafNodes records maximum
  match ← levelNodes records maximum leaves.length (linkSiblings leaves 0) ⟨0, leaves.length⟩ with
  | none => return none
  | some nodes => return some { nodes }

/-! ## Writing -/

/-- The page of a node, as a 32-bit reference. -/
def pageOf (pageFor : ℕ → Option PageNumber) (ordinal : ℕ) : Except TreeBuildError PageNumber := do
  let value ← okOr (pageFor ordinal) (.layout "node page assignment")
  refuseIf (¬value < 2 ^ 32) (.encoding (.integerConversion value "u32 index node page"))
  return value

/-- The header over the page that is reused: its links and its bitmap are zero. -/
def writeHeader (original : Page) (owner : PageNumber) (branch : Bool) : Page :=
  let image := original.write 0 [if branch then 3 else 4]
  let image := image.write 1 [1]
  let image := image.write 4 (leBytes 4 owner)
  let image := image.write 8 (List.replicate (entryAreaOffset - 8) 0)
  image.write 21 [if branch then 1 else 0]

/-- Writes a link to a node, where there is one. -/
def writeLink (pageFor : ℕ → Option PageNumber) (offset : ℕ) (target : Option ℕ) (image : Page) :
    Except TreeBuildError Page :=
  match target with
  | none => .ok image
  | some ordinal => do
    let page ← pageOf pageFor ordinal
    return image.write offset (leBytes 4 page)

/-- Marks the end of an entry. -/
def setBoundary (image : Page) (used : ℕ) : Page :=
  image.write (boundaryBitmapOffset + used / 8)
    [Bitmap.bytePut (image.get (boundaryBitmapOffset + used / 8)) (used % 8) true]

variable (plan : ScalarIndexPages)

/-- The record of the entry at `position` of a node. -/
def sourceRecord (records : List (List UInt8)) (node : Node) (position : ℕ) : List UInt8 :=
  if node.children.isEmpty then records.getD (node.entries.start + position) []
  else maximumRecord records plan.nodes (node.children.start + position)

/-- What follows the record of an entry: the reference to a child in a branch. -/
def childReference (pageFor : ℕ → Option PageNumber) (node : Node) (position : ℕ) :
    Except TreeBuildError (List UInt8) :=
  if node.children.isEmpty then .ok []
  else do
    let child ← pageOf pageFor (node.children.start + position)
    return beBytes branchChildLen child

/-- One iteration over the entries of a node. -/
def writeEntry (records : List (List UInt8)) (pageFor : ℕ → Option PageNumber) (node : Node)
    (state : Page × ℕ) (position : ℕ) : Except TreeBuildError (Page × ℕ) := do
  let record := plan.sourceRecord records node position
  refuseIf (¬RecordFits record) (.layout "record width")
  let width := record.length + if node.children.isEmpty then 0 else branchChildLen
  refuseIf (state.2 + width > entryAreaLen) (.layout "changed entry widths exceed page capacity")
  let start := entryAreaOffset + state.2
  let image := state.1.write start record
  let child ← childReference pageFor node position
  let image := image.write (start + record.length) child
  return (setBoundary image (state.2 + width), state.2 + width)

/-- Rebuilds the header and the used entries of a node; the other bytes are those of the page that
is reused. -/
def image (ordinal : ℕ) (records : List (List UInt8)) (pageFor : ℕ → Option PageNumber)
    (owner : PageNumber) (original : Page) : Except TreeBuildError Page := do
  let node ← okOr plan.nodes[ordinal]? (.layout "node ordinal")
  refuseIf ((plan.nodes.getLast?.map fun root => root.entries.stop) ≠ some records.length)
    (.layout "entry inventory")
  refuseIf (¬owner < 2 ^ 32) (.encoding (.integerConversion owner "u32 index owner"))
  let _ ← pageOf pageFor ordinal
  let branch := !node.children.isEmpty
  let image := writeHeader original owner branch
  let image ← writeLink pageFor 8
    (if 1 ≤ ordinal ∧ node.siblings.start ≤ ordinal - 1 then some (ordinal - 1) else none) image
  let image ← writeLink pageFor 12
    (if ordinal + 1 < node.siblings.stop then some (ordinal + 1) else none) image
  let image ← writeLink pageFor 16 (if branch then some (node.children.stop - 1) else none) image
  let count := if branch then node.children.len - 1 else node.entries.len
  let (image, used) ← (List.range count).foldlM (plan.writeEntry records pageFor node) (image, 0)
  return image.write 2 (leBytes 2 (entryAreaLen - used))

end ScalarIndexPages

end Jet3
