import Jet3.Alloc.Map
import Jet3.Alloc.UsageMap
import Jet3.Definition.ColumnType

/-!
# Failures of a table definition

What the reader and the decoder of a table definition refuse, with everything the source reports
about each refusal. Failures of a lower layer are wrapped unchanged.
-/

namespace Jet3

/-- Why a definition has no map locators. -/
inductive MapLocationError where
  | expectedTableDefinition (page : PageNumber) (actual : PageKind)
  | invalidReference (role : String) (locator : MapRowLocator) (source : Error)
  deriving DecidableEq, Repr

/-- A failure while following a chain of pages or traversing an allocation map. -/
inductive AllocationTraversalError where
  | mapLocation (source : MapLocationError)
  | usageMap (source : UsageMapError)
  | allocationMap (source : AllocationMapError)
  | page (source : DatabasePageError)
  | invalidReference (page : PageNumber) (source : Error)
  | selfReference (recordPage : PageNumber)
  | nonzeroAfterNullSlot (slot : ℕ) (page : PageNumber)
  | repeatedPage (page : PageNumber)
  | unexpectedPageKind (page : PageNumber) (expected actual : PageKind)
  | relativeBitOutOfRange (slot bitIndex : ℕ)
  | inlinePageOverflow (startPage : PageNumber) (bitIndex : ℕ)
  | extendedPageOverflow (slot bitIndex : ℕ)
  | resource (source : Error)
  deriving DecidableEq, Repr

/-- Why an index of a definition is refused. -/
inductive IndexDefinitionError where
  | truncated (offset needed length : ℕ)
  | keyAfterUnusedSlot (physicalIndex slot : ℕ)
  | invalidColumnOrdinal (physicalIndex slot ordinal columnCount : ℕ)
  | duplicateKeyColumn (physicalIndex ordinal : ℕ)
  | unsupportedDirection (physicalIndex slot : ℕ) (raw : UInt8)
  | emptyPhysicalIndex (physicalIndex : ℕ)
  | unsupportedPhysicalFlags (physicalIndex : ℕ) (raw : UInt8)
  | nullPhysicalReference (physicalIndex : ℕ) (role : String)
  | invalidPhysicalReference (physicalIndex : ℕ) (role : String) (page : PageNumber)
    (source : Error)
  | invalidPhysicalIndexOrdinal (logicalIndex ordinal physicalCount : ℕ)
  | unsupportedLogicalRecord (logicalIndex : ℕ) (kind : UInt8) (context : List UInt8)
    (marker : UInt8)
  | unexpectedOrdinaryRelationshipFields (logicalIndex : ℕ)
  | invalidRelationshipReference (logicalIndex : ℕ) (page : PageNumber) (source : Option Error)
  | duplicatePrimaryIndex
  | invalidPrimaryFlags (logicalIndex : ℕ) (raw : UInt8)
  | invalidLogicalName (logicalIndex : ℕ) (duplicate : Bool)
  | unreferencedPhysicalIndex (physicalIndex : ℕ)
  deriving DecidableEq, Repr

/-- Why the map groups of a definition are refused. -/
inductive LongValueMapError where
  | invalidSuffixLength (length : ℕ)
  | invalidColumnOrdinal (group ordinal columnCount : ℕ)
  | notLongValueColumn (ordinal : ℕ) (physicalType : ColumnPhysicalType)
  | duplicateColumn (ordinal : ℕ)
  | missingColumn (ordinal : ℕ)
  | invalidReference (ordinal : ℕ) (role : String) (locator : MapRowLocator) (source : Option Error)
  | invalidMapRow (ordinal : ℕ) (role : String) (locator : MapRowLocator) (source : UsageMapError)
  deriving DecidableEq, Repr

/-- Why a definition is refused. -/
inductive TableDefinitionError where
  | chain (source : AllocationTraversalError)
  | mapLocation (source : MapLocationError)
  | page (source : DatabasePageError)
  | index (source : IndexDefinitionError)
  | longValueMap (source : LongValueMapError)
  | invalidPrefix (page : PageNumber) (actual : List UInt8)
  | invalidLogicalLength (length minimum maximum : ℕ)
  | truncatedChain (page : PageNumber) (remaining : ℕ)
  | trailingChainReference (page next : PageNumber)
  | invalidHeaderMarker (raw : UInt8)
  | inconsistentColumnCount (first repeated : ℕ)
  | unsupportedReservedCount (raw : ℕ)
  | truncated (offset needed length : ℕ)
  | invalidColumnOrdinal (record first repeated : ℕ)
  | invalidVariableCounter (ordinal raw expected : ℕ)
  | inconsistentVariableCount (header decoded : ℕ)
  | unsupportedPhysicalType (ordinal : ℕ) (raw : UInt8)
  | unsupportedColumnClass (ordinal : ℕ) (physicalType : ColumnPhysicalType) (raw : UInt8)
  | unsupportedColumnSize (ordinal : ℕ) (physicalType : ColumnPhysicalType) (size : ℕ)
  | invalidFixedOffset (ordinal raw expected : ℕ)
  | invalidColumnConstant (ordinal raw : ℕ)
  | invalidColumnEncodingContext (ordinal : ℕ) (raw : List UInt8)
  | invalidColumnName (ordinal : ℕ) (duplicate : Bool)
  | invalidTerminator (offset : ℕ) (actual : List UInt8)
  | unexpectedReferenceKind (role : String) (page : PageNumber) (actual : PageKind)
  | resource (source : Error)
  deriving DecidableEq, Repr

end Jet3
