import Jet3.Definition.Column
import Jet3.Row.Value

/-!
# Physical index definitions

The decoder of one physical index record: ten key slots, the usage map and the root of its tree, and
its flags. Key slots retain stable column identities.
-/

namespace Jet3

open Outcome

/-- The bytes of one key slot. -/
def keySlotLen : ℕ := 3
/-- The ordinal of an unused key slot. -/
def nullColumnOrdinal : ℕ := 0xffff
/-- The flag of an index without duplicates. -/
def uniqueFlag : UInt8 := 0x01
/-- The flag of an index without nulls. -/
def requiredFlag : UInt8 := 0x08

namespace TableDefinitionKind

/-- The flags of a physical index a primary logical index may name. -/
def primaryFlags : TableDefinitionKind → UInt8
  | user => 0x09
  | system => 0x01

/-- The flag bytes the two kinds of tables have. -/
def supportedFlags : TableDefinitionKind → List UInt8
  | user => [0x00, 0x01, 0x02, 0x03, 0x08, 0x09]
  | system => [0x01, 0x02, 0x08]

end TableDefinitionKind

/-- A key column of an index. -/
structure IndexField where
  column : ℕ
  direction : IndexDirection
  deriving DecidableEq, Repr

/-- A physical index: its key columns, its map, its root and its flags. -/
structure PhysicalIndexDefinition where
  sourcedPrefix : Bytes physicalPrefixLen
  fields : List IndexField
  usageMap : MapRowLocator
  root : PageNumber
  unique : Bool
  required : Bool
  rawFlags : UInt8
  rawRecord : Bytes physicalRecordLen
  deriving DecidableEq, Repr

/-- The distinct keys of the index, counted in its prefix. -/
def PhysicalIndexDefinition.distinctKeyCount (index : PhysicalIndexDefinition) : ℕ :=
  leAt index.sourcedPrefix.val 4 4

/-- `validate_reference`: a page of the file. -/
def validateReference (pageCount : ℕ) (page : PageNumber) : Except Error Unit :=
  refuseIf (¬page < pageCount) (.pageOutOfBounds page pageCount)

/-- The direction of a stored byte. -/
def decodeDirection (physicalIndex slot : ℕ) (raw : UInt8) :
    Except IndexDefinitionError IndexDirection :=
  if raw = 0 then .ok .descending
  else if raw = 1 then .ok .ascending
  else .error (.unsupportedDirection physicalIndex slot raw)

/-- One key slot; the state says whether an unused slot was passed. -/
def decodeKeySlot (physicalIndex : ℕ) (record : Bytes physicalRecordLen)
    (columns : List ColumnDefinition) (state : List IndexField × Bool) (slot : ℕ) :
    Except IndexDefinitionError (List IndexField × Bool) :=
  let offset := slot * keySlotLen
  let ordinal := leAt record.val offset 2
  if ordinal = nullColumnOrdinal then .ok (state.1, true)
  else do
    refuseIf (state.2 = true) (.keyAfterUnusedSlot physicalIndex slot)
    let column ← okOr (columns.find? fun column => column.storageOrdinal = ordinal)
      (.invalidColumnOrdinal physicalIndex slot ordinal columns.length)
    refuseIf (∃ field ∈ state.1, field.column = column.ordinal)
      (.duplicateKeyColumn physicalIndex ordinal)
    let direction ← decodeDirection physicalIndex slot (byteAt record.val (offset + 2))
    return (state.1 ++ [{ column := column.ordinal, direction }], false)

/-- A reference of a physical index: neither null nor outside the file. -/
def checkPhysicalReference (pageCount physicalIndex : ℕ) (role : String) (page : PageNumber) :
    Except IndexDefinitionError Unit := do
  refuseIf (page = 0) (.nullPhysicalReference physicalIndex role)
  (validateReference pageCount page).mapError (.invalidPhysicalReference physicalIndex role page)

/-- `decode_physical`. -/
def decodePhysical (kind : TableDefinitionKind) (pageCount : ℕ) (columns : List ColumnDefinition)
    (physicalIndex : ℕ) (sourcedPrefix : Bytes physicalPrefixLen)
    (record : Bytes physicalRecordLen) : Except IndexDefinitionError PhysicalIndexDefinition := do
  let (fields, _) ← (List.range keySlotCount).foldlM (decodeKeySlot physicalIndex record columns)
    ([], false)
  refuseIf (fields = []) (.emptyPhysicalIndex physicalIndex)
  let mapPage := leAt record.val 31 3
  let root := leAt record.val 34 4
  checkPhysicalReference pageCount physicalIndex "usage map" mapPage
  checkPhysicalReference pageCount physicalIndex "index root" root
  let rawFlags := byteAt record.val 38
  refuseIf (rawFlags ∉ kind.supportedFlags) (.unsupportedPhysicalFlags physicalIndex rawFlags)
  return { sourcedPrefix, fields, usageMap := { page := mapPage, row := byteAt record.val 30 }, root
           unique := rawFlags &&& uniqueFlag ≠ 0, required := rawFlags &&& requiredFlag ≠ 0
           rawFlags, rawRecord := record }

end Jet3
