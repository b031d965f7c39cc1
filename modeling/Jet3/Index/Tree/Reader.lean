import Jet3.Index.Tree.Rows
import Jet3.Library.Worklist
import Mathlib.Data.List.SplitBy

/-!
# Reading index trees

The nodes of an index are visited level by level from the root. Branches name their children, leaves
give the entries, and the links between the nodes of a level are checked when all nodes are known.

* `visitNode` is one visited page, and `indexTree` the traversal;
* `classifyKey` names the encoding of a key of a single field.
-/

namespace Jet3

open Outcome

/-- A leaf entry ends in its locator. -/
def leafTrailerLen : ℕ := 4

/-- How the bytes of a key can be read back. -/
inductive IndexKeyEncoding where
  | null
  | boolean
  | byte
  | integer
  | long
  | currency
  | single
  | double
  | dateTime
  | binary
  | textCollation
  | unsupported
  deriving DecidableEq, Repr

/-- A stored key and its encoding. -/
structure IndexKey where
  raw : List UInt8
  encoding : IndexKeyEncoding
  deriving DecidableEq, Repr

/-- One leaf entry in tree order. -/
structure IndexEntry where
  key : IndexKey
  row : RowLocator
  deriving DecidableEq, Repr

/-- What a reader gets of an index: its nodes, level by level, and its entries in order. -/
structure IndexTree where
  root : PageNumber
  nodes : List IndexNode
  entries : List IndexEntry
  deriving DecidableEq, Repr

/-! ## Entries -/

/-- The encoding of a present key of a column. -/
def presentKeyEncoding (column : ColumnDefinition) (raw : List UInt8) : IndexKeyEncoding :=
  let ofLength (length : ℕ) (encoding : IndexKeyEncoding) :=
    if raw.length = length then encoding else .unsupported
  match column.physicalType with
  | .boolean => ofLength 2 .boolean
  | .byte => ofLength 2 .byte
  | .integer => ofLength 3 .integer
  | .long => ofLength 5 .long
  | .currency => ofLength 9 .currency
  | .single => ofLength 5 .single
  | .double => ofLength 9 .double
  | .dateTime => ofLength 9 .dateTime
  | .binary =>
    if raw.length = column.size + 2 ∧ raw.getLast? = some (UInt8.ofNat column.size) then .binary
    else .unsupported
  | .text => if 3 ≤ raw.length ∧ raw.getLast? = some 0 then .textCollation else .unsupported
  | _ => .unsupported

/-- The encoding of a stored key, known for indexes of one column only. -/
def classifyKey (raw : List UInt8) (physical : PhysicalIndexDefinition) (table : TableDefinition) :
    IndexKeyEncoding :=
  match physical.fields with
  | [field] =>
    if raw = [0] then .null
    else
      match table.columns[field.column]? with
      | none => .unsupported
      | some column =>
        if raw.head? = some 0x7f then presentKeyEncoding column raw else .unsupported
  | _ => .unsupported

/-- The complete bytes of the entry in `[start, stop)` of the entry area. -/
def entryBytes (page : Page) (prefixLen start stop : ℕ) : List UInt8 :=
  page.slice entryAreaOffset (entryAreaOffset + prefixLen) ++
    page.slice (entryAreaOffset + start) (entryAreaOffset + stop)

/-- The page and the slot at the end of a record. -/
def trailerLocator (trailer : List UInt8) : RowLocator :=
  { page := beValue (trailer.take 3), slot := byteAt trailer 3 }

/-- The entry of a leaf with these bytes. -/
def leafEntry (page : PageNumber) (pageCount : ℕ) (physical : PhysicalIndexDefinition)
    (table : TableDefinition) (ordinal : ℕ) (raw : List UInt8) :
    Except IndexTreeError IndexEntry := do
  refuseIf (raw.length ≤ leafTrailerLen) (.truncatedEntry page ordinal raw.length)
  let keyLen := raw.length - leafTrailerLen
  let row := trailerLocator (raw.drop keyLen)
  validateIndexReference pageCount page row.page "leaf row page"
  let key := raw.take keyLen
  return { key := { raw := key, encoding := classifyKey key physical table }, row }

/-- One iteration over the entries of a leaf. The state is the start of the entry. -/
def appendLeafEntry (page : Page) (parsed : ParsedNode) (physical : PhysicalIndexDefinition)
    (table : TableDefinition) (pageCount : ℕ) (state : List IndexEntry × ℕ) (entry : ℕ × ℕ) :
    Except IndexTreeError (List IndexEntry × ℕ) := do
  let new ← leafEntry parsed.node.page pageCount physical table entry.2
    (entryBytes page parsed.prefixLen state.2 entry.1)
  return (state.1 ++ [new], entry.1)

/-- `append_leaf_entries`: the entries of a leaf. -/
def leafEntries (page : Page) (parsed : ParsedNode) (physical : PhysicalIndexDefinition)
    (table : TableDefinition) (pageCount : ℕ) : Except IndexTreeError (List IndexEntry) := do
  let state ← (boundaries page).zipIdx.foldlM (appendLeafEntry page parsed physical table pageCount)
    ([], parsed.prefixLen)
  return state.1

/-! ## Children -/

/-- A branch refers to another page of the file. -/
def validateChild (containing child : PageNumber) (pageCount : ℕ) : Except IndexTreeError Unit := do
  refuseIf (child = containing) (.selfReference containing "branch child")
  validateIndexReference pageCount containing child "branch child"

/-- The child that the entry of a branch with these bytes names. -/
def branchChild (page : PageNumber) (pageCount ordinal : ℕ) (raw : List UInt8) :
    Except IndexTreeError PageNumber := do
  refuseIf (raw.length ≤ leafTrailerLen + branchChildLen) (.truncatedEntry page ordinal raw.length)
  let trailer := raw.drop (raw.length - (leafTrailerLen + branchChildLen))
  validateIndexReference pageCount page (trailerLocator trailer).page "branch row page"
  let child := beValue (trailer.drop leafTrailerLen)
  validateChild page child pageCount
  return child

/-- One iteration over the entries of a branch. -/
def appendChild (page : Page) (parsed : ParsedNode) (pageCount : ℕ) (state : List PendingNode × ℕ)
    (entry : ℕ × ℕ) : Except IndexTreeError (List PendingNode × ℕ) := do
  let child ← branchChild parsed.node.page pageCount entry.2
    (entryBytes page parsed.prefixLen state.2 entry.1)
  return (state.1 ++ [{ page := child, depth := parsed.node.depth + 1 }], entry.1)

/-- `append_children`: the children of a branch, the one behind the last entry included. -/
def childNodes (page : Page) (parsed : ParsedNode) (pageCount : ℕ) :
    Except IndexTreeError (List PendingNode) := do
  let state ← (boundaries page).zipIdx.foldlM (appendChild page parsed pageCount)
    ([], parsed.prefixLen)
  validateChild parsed.node.page parsed.tailChild pageCount
  return state.1 ++ [{ page := parsed.tailChild, depth := parsed.node.depth + 1 }]

/-! ## Traversal -/

/-- What the reader has seen so far. -/
structure TreeState where
  visited : List PageNumber
  nodes : List IndexNode
  entries : List IndexEntry
  rows : RowReferenceValidator
  leafDepth : Option ℕ

/-- Leaves stand at one depth, and no branch stands behind one. -/
def checkLeafDepth (leafDepth : Option ℕ) (pending : PendingNode) (kind : IndexNodeKind) :
    Except IndexTreeError (Option ℕ) :=
  match leafDepth, kind with
  | some expected, .leaf =>
    if expected ≠ pending.depth then
      .error (.inconsistentLeafDepth pending.page expected pending.depth)
    else .ok (some expected)
  | none, .leaf => .ok (some pending.depth)
  | some expected, .intermediate =>
    .error (.inconsistentLeafDepth pending.page expected pending.depth)
  | none, .intermediate => .ok none

/-- The entries of a leaf, and the children of a branch. -/
def nodeContents (file : PageFile) (table : TableDefinition) (physical : PhysicalIndexDefinition)
    (page : Page) (parsed : ParsedNode) (rows : RowReferenceValidator) :
    Except IndexTreeError ((List IndexEntry × RowReferenceValidator) × List PendingNode) :=
  match parsed.node.kind with
  | .leaf => do
    let entries ← leafEntries page parsed physical table file.pageCount
    let rows ← entries.foldlM (fun rows entry => rows.validate file table.root entry.row) rows
    return ((entries, rows), [])
  | .intermediate => do
    let children ← childNodes page parsed file.pageCount
    return (([], rows), children)

/-- One visited page: the state behind it, and the nodes it adds to the queue. -/
def visitNode (file : PageFile) (table : TableDefinition) (physical : PhysicalIndexDefinition)
    (state : TreeState) (pending : PendingNode) :
    Except IndexTreeError (TreeState × List PendingNode) := do
  validateIndexReference file.pageCount pending.page pending.page "tree node"
  refuseIf (pending.page ∈ state.visited) (.repeatedPage pending.page)
  let classified ← (file.readClassifiedPage pending.page).mapError .page
  let parsed ← parseNode classified.kind pending table.root file.pageCount classified.raw
  let leafDepth ← checkLeafDepth state.leafDepth pending parsed.node.kind
  let ((entries, rows), children) ← nodeContents file table physical classified.raw parsed
    state.rows
  return ({ visited := pending.page :: state.visited, nodes := state.nodes ++ [parsed.node]
            entries := state.entries ++ entries, rows, leafDepth }, children)

/-- The sibling links of a level. -/
def checkLinks (level : List IndexNode) : Except IndexTreeError Unit :=
  forM level.zipIdx fun entry => do
    let previous := if entry.2 = 0 then none else level[entry.2 - 1]?.map IndexNode.page
    let next := level[entry.2 + 1]?.map IndexNode.page
    refuseIf (entry.1.previous ≠ previous)
      (.invalidSiblingLink entry.1.page "previous sibling" previous entry.1.previous)
    refuseIf (entry.1.next ≠ next)
      (.invalidSiblingLink entry.1.page "next sibling" next entry.1.next)

/-- The groups of nodes at one depth. -/
def levelsOf (nodes : List IndexNode) : List (List IndexNode) :=
  nodes.splitBy fun a b => decide (a.depth = b.depth)

/-- The nodes of each level are linked in both directions. -/
def validateSiblingLinks (nodes : List IndexNode) : Except IndexTreeError Unit :=
  forM (levelsOf nodes) checkLinks

/-- The queue with the root in it. -/
def rootQueue (physical : PhysicalIndexDefinition) : List PendingNode :=
  [{ page := physical.root, depth := 1 }]

/-- Nothing has been seen. -/
def TreeState.initial : TreeState :=
  { visited := [], nodes := [], entries := [], rows := { validated := [] }, leafDepth := none }

/-- Traverses one index of a table; nothing where the fuel runs out. -/
def indexTree (file : PageFile) (table : TableDefinition) (physicalIndex fuel : ℕ) :
    Except IndexTreeError (Option IndexTree) := do
  let physical ← okOr table.physicalIndexes[physicalIndex]?
    (.invalidPhysicalIndexOrdinal physicalIndex table.physicalIndexes.length)
  match ← Worklist.run (visitNode file table physical) fuel .initial (rootQueue physical) with
  | none => return none
  | some state => do
    validateSiblingLinks state.nodes
    return some { root := physical.root, nodes := state.nodes, entries := state.entries }

end Jet3
