import Jet3.Alloc.Map
import Jet3.Alloc.UsageMap
import Jet3.Alloc.UsageMapWriter
import Jet3.Definition.Error
import Jet3.Format.DataPageBuilder
import Jet3.Row.Directory

/-!
# Failures of a write

The error type every planned update returns, with the message the source attaches to each refusal.
Failures of a lower layer are wrapped unchanged.
-/

namespace Jet3

/-- Why a statement is refused. -/
inductive WriteError where
  | pageImage (source : PageImageError)
  | mapEncoding (source : UsageMapWriteError)
  | notFound (what : String)
  | unsupported (what : String)
  | mismatch (what : String)
  | relationshipConstraint (parent child : PageNumber) (value : Int32)
  | scalarRelationshipConstraint (parent child : PageNumber)
  | nullRelationshipConstraint (parent child : PageNumber)
  | resource (source : Error)
  | definition (source : TableDefinitionError)
  | directory (source : RowDirectoryError)
  | usageMap (source : UsageMapError)
  | allocation (source : AllocationMapError)
  deriving DecidableEq, Repr

namespace WriteError

/-- Wraps a format-neutral failure. -/
def ofError {α : Type} (x : Except Error α) : Except WriteError α :=
  x.mapError .resource

/-- Wraps a row-directory failure. -/
def ofDirectory {α : Type} (x : Except RowDirectoryError α) : Except WriteError α :=
  x.mapError .directory

/-- Wraps a failure to read or decode a table definition. -/
def ofDefinition {α : Type} (x : Except TableDefinitionError α) : Except WriteError α :=
  x.mapError .definition

/-- Wraps a failure to locate an allocation map. -/
def ofUsageMap {α : Type} (x : Except UsageMapError α) : Except WriteError α :=
  x.mapError .usageMap

/-- Wraps a malformed allocation map. -/
def ofAllocation {α : Type} (x : Except AllocationMapError α) : Except WriteError α :=
  x.mapError .allocation

/-- Wraps a failure to build a data page. -/
def ofPageImage {α : Type} (x : Except PageImageError α) : Except WriteError α :=
  x.mapError .pageImage

/-- Wraps a failure to encode an allocation map. -/
def ofMapEncoding {α : Type} (x : Except UsageMapWriteError α) : Except WriteError α :=
  x.mapError .mapEncoding

@[simp]
theorem ofPageImage_ok_iff {α : Type} {x : Except PageImageError α} {a : α} :
    ofPageImage x = .ok a ↔ x = .ok a :=
  Outcome.mapError_ok_iff

@[simp]
theorem ofMapEncoding_ok_iff {α : Type} {x : Except UsageMapWriteError α} {a : α} :
    ofMapEncoding x = .ok a ↔ x = .ok a :=
  Outcome.mapError_ok_iff

@[simp]
theorem ofError_ok_iff {α : Type} {x : Except Error α} {a : α} : ofError x = .ok a ↔ x = .ok a :=
  Outcome.mapError_ok_iff

@[simp]
theorem ofDirectory_ok_iff {α : Type} {x : Except RowDirectoryError α} {a : α} :
    ofDirectory x = .ok a ↔ x = .ok a :=
  Outcome.mapError_ok_iff

@[simp]
theorem ofDefinition_ok_iff {α : Type} {x : Except TableDefinitionError α} {a : α} :
    ofDefinition x = .ok a ↔ x = .ok a :=
  Outcome.mapError_ok_iff

@[simp]
theorem ofUsageMap_ok_iff {α : Type} {x : Except UsageMapError α} {a : α} :
    ofUsageMap x = .ok a ↔ x = .ok a :=
  Outcome.mapError_ok_iff

@[simp]
theorem ofAllocation_ok_iff {α : Type} {x : Except AllocationMapError α} {a : α} :
    ofAllocation x = .ok a ↔ x = .ok a :=
  Outcome.mapError_ok_iff

end WriteError

end Jet3
