import Jet3.Catalog.Record
import Jet3.Definition.ColumnWriter
import Jet3.Definition.TablePages
import Jet3.Relationship.Catalog
import Jet3.Relationship.Groups

/-!
# Resolved relationships of the catalog

An enforced relationship of the catalog is resolved to the definitions of its two tables, its key
columns, and the two reciprocal records of their indexes. The records of a table are then matched
against the relationships resolved.
-/

namespace Jet3

open Outcome

/-- The locale and code page of a sort order, as a text column stores them. -/
def SortOrder.encodingContext : SortOrder → Option (List UInt8)
  | general => some [0x09, 0x04, 0xe4, 0x04]
  | nordic => some [0x1d, 0x04, 0xe4, 0x04]
  | spanish => some [0x0a, 0x04, 0xe4, 0x04]
  | dutch => some [0x13, 0x04, 0xe4, 0x04]
  | cyrillic => some [0x19, 0x04, 0xe3, 0x04]
  | greek => some [0x08, 0x04, 0xe5, 0x04]
  | other _ => none

/-- The sort order of a stored encoding context. -/
def SortOrder.fromEncodingContext (context : List UInt8) : Option SortOrder :=
  [general, nordic, spanish, dutch, cyrillic, greek].find? fun order =>
    order.encodingContext = some context

/-- The key type of a column, where an index can hold it. -/
def ScalarKeyType.fromDefinition (column : ColumnDefinition) : Option ScalarKeyType :=
  match column.physicalType with
  | .boolean => some .boolean
  | .byte => some .byte
  | .integer => some .integer
  | .long => some .long
  | .currency => some .currency
  | .single => some .single
  | .double => some .double
  | .dateTime => some .dateTime
  | .guid => some .guid
  | .binary =>
    if 1 ≤ column.size ∧ column.size ≤ 255 then some (.binary (UInt8.ofNat column.size)) else none
  | .text =>
    if 1 ≤ column.size ∧ column.size ≤ 255 then
      (SortOrder.fromEncodingContext column.rawEncodingContext).map
        (.text (UInt8.ofNat column.size))
    else none
  | _ => none

namespace RelationshipCatalog

/-- A relationship record of a table: the logical index that names it. -/
structure Relation where
  index : IndexDefinition
  reference : RelationshipReference
  deriving DecidableEq, Repr

/-- `relationships`. -/
def relationships (table : TableDefinition) : List Relation :=
  table.indexes.filterMap fun index =>
    match index.kind with
    | .relationship reference => some { index, reference }
    | _ => none

/-- What is read of an open database: its file, its sort order, and the records of its catalog, as
far as the catalog could be read. -/
structure DatabaseReader where
  file : PageFile
  sortOrder : SortOrder
  catalog : Except WriteError (List CatalogRecord)

/-- The definition at a root page. -/
def DatabaseReader.tableDefinition (database : DatabaseReader) (root : PageNumber) :
    Except WriteError TableDefinition :=
  WriteError.ofDefinition (Jet3.tableDefinition database.file root)

/-- A relationship whose tables and columns were found. -/
structure Constraint where
  flags : RelationshipFlags
  parent : TableDefinition
  child : TableDefinition
  parentColumns : List ColumnOrdinal
  childColumns : List ColumnOrdinal
  parentKinds : List ScalarKeyType
  childKinds : List ScalarKeyType
  selfReferenceRequiresExistingParent : Bool
  parentRecord : Bytes logicalRecordLen
  childRecord : Bytes logicalRecordLen
  deriving DecidableEq, Repr

/-- Key columns other than text and binary data have a fixed offset. -/
def storedAsKey : ScalarKeyType → ColumnStorageClass → Bool
  | .text _ _, _ | .binary _, _ | _, .fixed _ => true
  | _, .variable _ => false

/-- `key_column`. -/
def keyColumn (order : SortOrder) (table : TableDefinition) (name : List UInt8) :
    Except WriteError (ColumnOrdinal × ScalarKeyType) := do
  let column ← match table.columns.filter fun column =>
    catalogNamesEqual column.name name order with
    | [] => .error (.mismatch "relationship column absent")
    | [column] => .ok column
    | _ => .error (.mismatch "ambiguous relationship column")
  let kind ← okOr (ScalarKeyType.fromDefinition column)
    (.unsupported "relationship scalar column schema")
  refuseIf (storedAsKey kind column.storage = false)
    (.unsupported "relationship scalar column schema")
  return (column.ordinal, kind)

/-- `unique`. -/
def uniqueRelation : List Relation → Except WriteError Relation
  | [] => .error (.mismatch "missing reciprocal relationship index")
  | [relation] => .ok relation
  | _ => .error (.mismatch "ambiguous reciprocal relationship index")

/-- The flags the index of an endpoint may have. -/
def supportsFlags (parent uniqueChild : Bool) (raw : UInt8) : Bool :=
  if parent then raw = PhysicalIndexFlagsSpec.unique.raw ∨ raw =
    PhysicalIndexFlagsSpec.uniqueRequired.raw
  else if uniqueChild then raw = PhysicalIndexFlagsSpec.unique.raw
  else raw = PhysicalIndexFlagsSpec.ordinary.raw

/-- `index`. -/
def checkIndex (table : TableDefinition) (relation : Relation) (columns : List ColumnOrdinal)
    (parent : Bool) (flags : RelationshipFlags) : Except WriteError Unit := do
  refuseIf (relation.reference.rawContext ≠ flags.context)
    (.mismatch "relationship cascade flags differ")
  let index ← okOr table.physicalIndexes[relation.index.physicalIndex]?
    (.mismatch "relationship physical index")
  refuseIf (index.fields ≠ columns.map fun column => { column, direction := .ascending })
    (.unsupported "relationship requires ascending fields in catalog order")
  refuseIf (supportsFlags parent flags.unique index.rawFlags = false)
    (.unsupported "relationship index uniqueness differs from catalog attributes")

/-- The endpoint columns of the components resolved so far. -/
structure Endpoints where
  parentColumns : List ColumnOrdinal
  childColumns : List ColumnOrdinal
  parentKinds : List ScalarKeyType
  childKinds : List ScalarKeyType

/-- One component of a relationship. -/
def resolveComponent (parent child : TableDefinition) (endpoints : Endpoints) (record : Record) :
    Except WriteError Endpoints := do
  let (parentColumn, parentKind) ← keyColumn record.order parent record.parentColumn
  let (childColumn, childKind) ← keyColumn record.order child record.childColumn
  refuseIf (compatible parentKind childKind = false)
    (.mismatch "relationship endpoint types differ")
  refuseIf (parentColumn ∈ endpoints.parentColumns ∨ childColumn ∈ endpoints.childColumns)
    (.mismatch "relationship repeats an endpoint column")
  return { parentColumns := endpoints.parentColumns ++ [parentColumn]
           childColumns := endpoints.childColumns ++ [childColumn]
           parentKinds := endpoints.parentKinds ++ [parentKind]
           childKinds := endpoints.childKinds ++ [childKind] }

/-- `resolve_tables`. -/
def resolveTables (records : List Record) (parent child : TableDefinition) :
    Except WriteError Constraint := do
  let record ← okOr records.head? (.mismatch "empty relationship")
  let endpoints ← records.foldlM (resolveComponent parent child) ⟨[], [], [], []⟩
  let foreign ← uniqueRelation ((relationships child).filter fun relation =>
    catalogNamesEqual relation.index.name record.name record.order ∧
      relation.reference.side = .foreignTable ∧ relation.reference.relatedTable = parent.root)
  let flags ← okOr (RelationshipFlags.decode record.attributes)
    (.unsupported "relationship catalog flags")
  checkIndex child foreign endpoints.childColumns false flags
  let primary ← uniqueRelation ((relationships parent).filter fun relation =>
    relation.reference.side = .primaryTable ∧ relation.reference.relatedTable = child.root ∧
      relation.reference.rawSelector = foreign.reference.rawRelationOrdinal ∧
      relation.reference.rawRelationOrdinal = foreign.reference.rawSelector)
  checkIndex parent primary endpoints.parentColumns true flags
  return { flags, parent, child
           parentColumns := endpoints.parentColumns, childColumns := endpoints.childColumns
           parentKinds := endpoints.parentKinds, childKinds := endpoints.childKinds
           -- self-key checks see the parent tree in physical update order
           selfReferenceRequiresExistingParent := parent.root = child.root ∧
             primary.index.physicalIndex ≥ foreign.index.physicalIndex
           parentRecord := primary.index.rawRecord, childRecord := foreign.index.rawRecord }

/-- One record of the catalog in the search for a user table. -/
def matchTable (order : SortOrder) (name : List UInt8) (root : Option PageNumber)
    (record : CatalogRecord) : Except WriteError (Option PageNumber) :=
  if record.objectClass = .user ∧ record.kind = .table ∧ catalogNamesEqual record.name name order
  then do
    refuseIf root.isSome (.mismatch "ambiguous relationship table")
    return record.tableDefinition
  else .ok root

/-- `table`: the user table of a name. -/
def table (database : DatabaseReader) (name : List UInt8) : Except WriteError TableDefinition := do
  let catalog ← database.catalog
  let root ← catalog.foldlM (matchTable database.sortOrder name) none
  let root ← okOr root (.mismatch "relationship table absent")
  let definition ← database.tableDefinition root
  refuseIf (definition.kind ≠ .user) (.unsupported "relationship non-user endpoint")
  return definition

/-- Finds the tables and the columns a group of records names. -/
def resolve (database : DatabaseReader) (records : List Record) : Except WriteError Constraint := do
  let record ← okOr records.head? (.mismatch "empty relationship")
  let parent ← table database record.parent
  let child ← table database record.child
  resolveTables records parent child

/-! ## Inventory -/

/-- `record_matches`. -/
def recordMatches (root : PageNumber) (record : Bytes logicalRecordLen) (constraint : Constraint) :
    Bool :=
  (root = constraint.parent.root ∧ record = constraint.parentRecord) ∨
    (root = constraint.child.root ∧ record = constraint.childRecord)

/-- How often a table is an endpoint of the constraints. -/
def endpointCount (target : PageNumber) (constraints : List Constraint) : ℕ :=
  (constraints.map fun constraint =>
    (if constraint.parent.root = target then 1 else 0) +
      if constraint.child.root = target then 1 else 0).sum

/-- The resolved relationships a record of a table matches. -/
def matchCount (root : PageNumber) (relation : Relation) (constraints : List Constraint) : ℕ :=
  constraints.countP (recordMatches root relation.index.rawRecord)

/-- `check_target`: each record of the table is one endpoint of one relationship. -/
def checkTarget (target : TableDefinition) (constraints : List Constraint) :
    Except WriteError Unit := do
  forM (relationships target) fun relation =>
    refuseIf (matchCount target.root relation constraints ≠ 1)
      (.mismatch "unresolved target relationship record")
  refuseIf ((relationships target).length ≠ endpointCount target.root constraints)
    (.mismatch "relationship catalog/index inventory")

/-- The definition pages of the user tables. -/
def userRoots (catalog : List CatalogRecord) : List PageNumber :=
  catalog.filterMap fun record =>
    if record.objectClass = .user ∧ record.kind = .table then record.tableDefinition else none

/-- The records of the table at `root` that name the target. -/
def incomingFrom (database : DatabaseReader) (target : PageNumber) (constraints : List Constraint)
    (count : ℕ) (root : PageNumber) : Except WriteError ℕ := do
  let table ← database.tableDefinition root
  let relations := (relationships table).filter fun relation =>
    relation.reference.relatedTable = target
  forM relations fun relation =>
    refuseIf (matchCount root relation constraints ≠ 1)
      (.mismatch "unresolved incoming relationship record")
  return count + relations.length

/-- `incoming`: each record that names the target is one endpoint of one relationship. -/
def incoming (database : DatabaseReader) (target : PageNumber) (constraints : List Constraint) :
    Except WriteError Unit := do
  let catalog ← database.catalog
  let count ← (userRoots catalog).foldlM (incomingFrom database target constraints) 0
  refuseIf (count ≠ endpointCount target constraints) (.mismatch "incoming relationship inventory")

end RelationshipCatalog

end Jet3
