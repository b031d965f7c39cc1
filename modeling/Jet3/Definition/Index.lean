import Jet3.Definition.PhysicalIndex
import Mathlib.Data.FinEnum

/-!
# Logical index definitions

The decoder of the index sections: the physical records, the logical records, and the logical names.
A logical index names its physical tree; aliases may share one, and no tree may go unnamed.
-/

namespace Jet3

open Outcome

/-- The two sides of a relationship. -/
inductive RelationshipSide where
  | primaryTable
  | foreignTable
  deriving DecidableEq, Repr

/-- What the record of an index says about the relationship it enforces. -/
structure RelationshipReference where
  side : RelationshipSide
  relatedTable : PageNumber
  rawSelector : ℕ
  rawRelationOrdinal : ℕ
  rawContext : List UInt8
  deriving DecidableEq, Repr

namespace RelationshipReference

/-- Whether a changed key is handed down. -/
def cascadeUpdates (reference : RelationshipReference) : Bool :=
  byteAt reference.rawContext 0 = 1

/-- Whether the children of a deleted row are deleted. -/
def cascadeDeletes (reference : RelationshipReference) : Bool :=
  byteAt reference.rawContext 1 = 1

end RelationshipReference

/-- What a logical index is for. -/
inductive IndexDefinitionKind where
  | ordinary
  | primary
  | relationship (reference : RelationshipReference)
  deriving DecidableEq, Repr

/-- A logical index: a name and a use of a physical one. -/
structure IndexDefinition where
  name : List UInt8
  physicalIndex : ℕ
  kind : IndexDefinitionKind
  rawRecord : Bytes logicalRecordLen
  deriving DecidableEq, Repr

/-- What the index sections are decoded against. -/
structure IndexDecodeContext where
  kind : TableDefinitionKind
  columns : List ColumnDefinition
  logicalCount : ℕ
  physicalCount : ℕ
  pageCount : ℕ

/-- One iteration over the physical records; the prefixes stand before the columns. -/
def decodeNextPhysical (context : IndexDecodeContext) (total : ℕ)
    (state : List PhysicalIndexDefinition × List UInt8) (entry : Bytes physicalPrefixLen × ℕ) :
    Except IndexDefinitionError (List PhysicalIndexDefinition × List UInt8) := do
  let (record, rest) ← Reader.take .truncated total physicalRecordLen state.2
  let index ← decodePhysical context.kind context.pageCount context.columns entry.2 entry.1 record
  return (state.1 ++ [index], rest)

/-- One iteration over the logical records. -/
def takeLogical (total : ℕ) (state : List (Bytes logicalRecordLen) × List UInt8) (_ : ℕ) :
    Except IndexDefinitionError (List (Bytes logicalRecordLen) × List UInt8) := do
  let (record, rest) ← Reader.take .truncated total logicalRecordLen state.2
  return (state.1 ++ [record], rest)

/-- One iteration over the logical names. -/
def takeLogicalName (total : ℕ) (state : List (List UInt8) × List UInt8) (logicalIndex : ℕ) :
    Except IndexDefinitionError (List (List UInt8) × List UInt8) := do
  let (name, rest) ← Reader.takeName .truncated total state.2
  refuseIf (name = []) (.invalidLogicalName logicalIndex false)
  refuseIf (name ∈ state.1) (.invalidLogicalName logicalIndex true)
  return (state.1 ++ [name], rest)

/-- A logical index names a physical one of the table. -/
def validatePhysicalOrdinal (logicalIndex ordinal physicalCount : ℕ) :
    Except IndexDefinitionError Unit :=
  refuseIf (¬ordinal < 2 ^ 16 ∨ ordinal ≥ physicalCount)
    (.invalidPhysicalIndexOrdinal logicalIndex ordinal physicalCount)

/-- The logical indexes decoded so far, and whether one was primary. -/
structure LogicalScan where
  logical : List IndexDefinition
  primarySeen : Bool

/-- The words of a logical record. -/
structure LogicalFields where
  selector : ℕ
  physicalOrdinal : ℕ
  marker : UInt8
  relationOrdinal : ℕ
  related : ℕ
  context : List UInt8
  kind : UInt8

/-- Cuts a logical record into its fields. -/
def LogicalFields.read (record : Bytes logicalRecordLen) : LogicalFields :=
  { selector := leAt record.val 0 4, physicalOrdinal := leAt record.val 4 4
    marker := byteAt record.val 8, relationOrdinal := leAt record.val 9 4
    related := leAt record.val 13 4, context := (record.val.drop 17).take 2
    kind := byteAt record.val 19 }

/-- A record whose class, context and marker do not go together. -/
def LogicalFields.unsupported (fields : LogicalFields) (logicalIndex : ℕ) : IndexDefinitionError :=
  .unsupportedLogicalRecord logicalIndex fields.kind fields.context fields.marker

/-- The class of an index no relationship enforces. The first word identifies the logical alias;
only the second selects its physical tree. -/
def decodeOrdinary (kind : TableDefinitionKind) (physical : List PhysicalIndexDefinition)
    (logicalIndex : ℕ) (primarySeen : Bool) (fields : LogicalFields) :
    Except IndexDefinitionError IndexDefinitionKind := do
  refuseIf (fields.marker ≠ 0 ∨ fields.context ≠ [4, 4]) (fields.unsupported logicalIndex)
  refuseIf (fields.relationOrdinal ≠ 0xffffffff ∨ fields.related ≠ 0)
    (.unexpectedOrdinaryRelationshipFields logicalIndex)
  if fields.kind = 1 then
    refuseIf (primarySeen = true) .duplicatePrimaryIndex
    let index ← okOr physical[fields.physicalOrdinal]?
      (.invalidPhysicalIndexOrdinal logicalIndex fields.physicalOrdinal physical.length)
    refuseIf (index.rawFlags ≠ kind.primaryFlags) (.invalidPrimaryFlags logicalIndex index.rawFlags)
    return .primary
  else return .ordinary

/-- The side of a stored marker. -/
def decodeSide (logicalIndex : ℕ) (fields : LogicalFields) :
    Except IndexDefinitionError RelationshipSide :=
  if fields.marker = 1 then .ok .primaryTable
  else if fields.marker = 2 then .ok .foreignTable
  else .error (fields.unsupported logicalIndex)

/-- The class of an index a relationship enforces. It may reference its own table. -/
def decodeRelationship (pageCount logicalIndex : ℕ) (fields : LogicalFields) :
    Except IndexDefinitionError IndexDefinitionKind := do
  refuseIf (¬∀ value ∈ fields.context, value ≤ 1) (fields.unsupported logicalIndex)
  let side ← decodeSide logicalIndex fields
  refuseIf (fields.related = 0) (.invalidRelationshipReference logicalIndex fields.related none)
  (validateReference pageCount fields.related).mapError fun source =>
    .invalidRelationshipReference logicalIndex fields.related (some source)
  return .relationship { side, relatedTable := fields.related, rawSelector := fields.selector
                         rawRelationOrdinal := fields.relationOrdinal
                         rawContext := fields.context }

/-- The kind of a logical record: ordinary and primary indexes first, all others are
relationships. -/
def decodeLogicalKind (context : IndexDecodeContext) (physical : List PhysicalIndexDefinition)
    (logicalIndex : ℕ) (primarySeen : Bool) (fields : LogicalFields) :
    Except IndexDefinitionError IndexDefinitionKind :=
  if fields.kind = 0 ∨ fields.kind = 1 then
    decodeOrdinary context.kind physical logicalIndex primarySeen fields
  else if fields.kind = 2 then decodeRelationship context.pageCount logicalIndex fields
  else .error (fields.unsupported logicalIndex)

/-- One iteration over the logical records and their names. -/
def decodeLogical (context : IndexDecodeContext) (physical : List PhysicalIndexDefinition)
    (scan : LogicalScan) (entry : (Bytes logicalRecordLen × List UInt8) × ℕ) :
    Except IndexDefinitionError LogicalScan := do
  let fields := LogicalFields.read entry.1.1
  validatePhysicalOrdinal entry.2 fields.physicalOrdinal context.physicalCount
  let kind ← decodeLogicalKind context physical entry.2 scan.primarySeen fields
  let index : IndexDefinition :=
    { name := entry.1.2, physicalIndex := fields.physicalOrdinal, kind, rawRecord := entry.1.1 }
  return { logical := scan.logical ++ [index]
           primarySeen := scan.primarySeen || decide (kind = .primary) }

/-- Every physical index is named by a logical one. -/
def checkReferenced (physicalCount : ℕ) (logical : List IndexDefinition) :
    Except IndexDefinitionError Unit :=
  match (List.range physicalCount).find? fun ordinal =>
      ¬∃ index ∈ logical, index.physicalIndex = ordinal with
  | some ordinal => .error (.unreferencedPhysicalIndex ordinal)
  | none => .ok ()

/-- `decode_indexes`. Returns what follows the sections. -/
def decodeIndexes (context : IndexDecodeContext) (total : ℕ)
    (prefixes : List (Bytes physicalPrefixLen)) (rest : List UInt8) :
    Except IndexDefinitionError
      ((List PhysicalIndexDefinition × List IndexDefinition) × List UInt8) := do
  let (physical, rest) ← prefixes.zipIdx.foldlM (decodeNextPhysical context total) ([], rest)
  let (records, rest) ← (List.range context.logicalCount).foldlM (takeLogical total) ([], rest)
  let (names, rest) ← (List.range context.logicalCount).foldlM (takeLogicalName total) ([], rest)
  let scan ← (records.zip names).zipIdx.foldlM (decodeLogical context physical)
    { logical := [], primarySeen := false }
  checkReferenced context.physicalCount scan.logical
  return ((physical, scan.logical), rest)

end Jet3
