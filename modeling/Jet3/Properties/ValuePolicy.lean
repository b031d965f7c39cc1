import Jet3.Library.Outcome
import Jet3.Row.Writer

/-!
# Value policies

What the named Boolean properties of a column ask of a value: a required column takes no value that
is stored as null, and a column without zero-length strings takes no empty text.
-/

namespace Jet3

open Outcome

/-- The options of a column that its properties select. -/
structure ColumnOptions where
  required : Bool
  allowZeroLength : Option Bool
  validationRule : Bool
  deriving DecidableEq, Repr

/-- Which option of its column a value breaks. -/
inductive ValuePolicyError where
  | requiredValueMissing (ordinal : ℕ) (physicalType : ColumnPhysicalType)
  | zeroLengthNotAllowed (ordinal : ℕ) (physicalType : ColumnPhysicalType)
  deriving DecidableEq, Repr

/-- `stores_null`: empty binary values are stored as nulls. -/
def storesNull (kind : ColumnPhysicalType) (value : RowValue) : Bool :=
  kind ≠ .boolean ∧
    (value = .null ∨ (kind = .binary ∧ value = .binary []) ∨
      (kind = .longBinary ∧ value = .longBinary []))

/-- `empty_string`. -/
def emptyString (kind : ColumnPhysicalType) (storage : ColumnStorageClass) (value : RowValue) :
    Bool :=
  (kind = .text ∧ storage.isFixed = false ∧ value = .text []) ∨ (kind = .memo ∧ value = .memo [])

/-- `check_value`. -/
def checkValue (ordinal : ℕ) (kind : ColumnPhysicalType) (storage : ColumnStorageClass)
    (options : ColumnOptions) (value : RowValue) : Except ValuePolicyError Unit := do
  refuseIf (options.required = true ∧ storesNull kind value = true)
    (.requiredValueMissing ordinal kind)
  refuseIf (options.allowZeroLength = some false ∧ emptyString kind storage value = true)
    (.zeroLengthNotAllowed ordinal kind)

end Jet3
