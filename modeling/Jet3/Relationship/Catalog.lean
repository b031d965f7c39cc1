import Jet3.Relationship.Key

/-!
# Resolved relationships

An enforced relationship as the catalog resolves it: its endpoints, its key columns with their
types, and the cascade flags. The fields below the data are what resolution checks, so every
`Constraint` relates key lists of one length whose columns pair up.
-/

namespace Jet3

/-- A zero-based column ordinal. -/
abbrev ColumnOrdinal : Type := ℕ

/-- The attributes of an enforced relationship the mutation paths read. -/
structure RelationshipFlags where
  updates : Bool
  deletes : Bool
  deriving DecidableEq, Repr

/-- An enforced relationship between two tables, as the checks of a statement use it. -/
structure Constraint where
  flags : RelationshipFlags
  /-- The definition page of the referenced table. -/
  parent : PageNumber
  /-- The definition page of the referencing table. -/
  child : PageNumber
  parentColumns : List ColumnOrdinal
  childColumns : List ColumnOrdinal
  parentKinds : List ScalarKeyType
  childKinds : List ScalarKeyType
  selfReferenceRequiresExistingParent : Bool
  fields_pos : 1 ≤ parentColumns.length := by decide
  fields_le : parentColumns.length ≤ maxFields := by decide
  childColumns_length : childColumns.length = parentColumns.length := by rfl
  parentKinds_length : parentKinds.length = parentColumns.length := by rfl
  kinds_compatible : List.Forall₂ (fun parent child => compatible parent child = true)
    parentKinds childKinds := by decide
  parentColumns_nodup : parentColumns.Nodup := by decide
  childColumns_nodup : childColumns.Nodup := by decide
  selfReference : selfReferenceRequiresExistingParent = true → parent = child := by decide

namespace Constraint

/-- Whether the constraint propagates a change of this kind from the parent to its children. -/
def cascades (constraint : Constraint) (deleted : Bool) : Bool :=
  if deleted then constraint.flags.deletes else constraint.flags.updates

/-- A relationship between two long-integer columns. -/
def ofLong (flags : RelationshipFlags) (parent : PageNumber) (parentColumn : ColumnOrdinal)
    (child : PageNumber) (childColumn : ColumnOrdinal) : Constraint where
  flags := flags
  parent := parent
  child := child
  parentColumns := [parentColumn]
  childColumns := [childColumn]
  parentKinds := [.long]
  childKinds := [.long]
  selfReferenceRequiresExistingParent := false
  fields_pos := by simp
  fields_le := by simp [maxFields]
  kinds_compatible := by simp [compatible]
  parentColumns_nodup := by simp
  childColumns_nodup := by simp
  selfReference := by simp

end Constraint

end Jet3
