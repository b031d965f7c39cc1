import Jet3.Format.Text
import Jet3.Index.Key.LocaleTextWeights
import Jet3.Index.Key.Text

/-!
# Text keys in the other sort orders

The same component layout with the tables of a sort order. Spanish sorts `ch` and `ll` as single
letters, in either case.
-/

namespace Jet3.LocaleText

/-- The tables of a sort order. -/
def weights : SortOrder → Option Weights
  | .nordic => some LocaleTextWeights.nordic
  | .spanish => some LocaleTextWeights.spanish
  | .dutch => some LocaleTextWeights.dutch
  | .cyrillic => some LocaleTextWeights.cyrillic
  | .greek => some LocaleTextWeights.greek
  | _ => none

/-- `u8::to_ascii_lowercase`. -/
def asciiLowercase (byte : UInt8) : UInt8 :=
  if 0x41 ≤ byte ∧ byte ≤ 0x5a then byte + 0x20 else byte

/-- The single weight of a Spanish two-letter contraction. -/
def contraction (order : SortOrder) (first second : UInt8) : Option UInt8 :=
  if order = .spanish then
    if asciiLowercase first = 0x63 ∧ asciiLowercase second = 0x68 then some 0x63
    else if asciiLowercase first = 0x6c ∧ asciiLowercase second = 0x6c then some 0x6e
    else none
  else none

/-- The collation units of a text: the primary weight and the secondary weight of each character
or contraction. -/
def units (order : SortOrder) (weights : Weights) : List UInt8 → List (ℕ × UInt8)
  | [] => []
  | [byte] =>
    [(weights.primary.getD byte.toNat 0, UInt8.ofNat (weights.secondary.getD byte.toNat 0))]
  | byte :: next :: rest =>
    match contraction order byte next with
    | some weight => (weight.toNat, 2) :: units order weights rest
    | none =>
      (weights.primary.getD byte.toNat 0, UInt8.ofNat (weights.secondary.getD byte.toNat 0)) ::
        units order weights (next :: rest)

/-- A weight carries a secondary weight. -/
def accented (weights : Weights) (weight : UInt8) : Bool :=
  weights.accents.getD weight.toNat 0 ≠ 0

/-- The key of a text whose characters all have weights. -/
def encodeBytes (value : List UInt8) (direction : IndexDirection) (order : SortOrder)
    (weights : Weights) : List UInt8 :=
  let units := units order weights value
  Text.component direction.mask
    (units.flatMap fun unit => Text.weightBytes unit.1)
    (units.flatMap fun unit =>
      ((Text.weightBytes unit.1).filter (accented weights)).map fun _ => unit.2)

/-- The key of a text in a sort order; characters without a weight have no key. -/
def encode (value : List UInt8) (maximum : UInt8) (direction : IndexDirection)
    (order : SortOrder) : Option (List UInt8) :=
  if order = .general then Text.encode value maximum direction
  else if value.length > maximum.toNat then none
  else do
    let weights ← weights order
    let page ← order.codePage
    if value.any fun byte => (mappedCharacter page byte).isNone then none
    else some (encodeBytes (Text.trimSpaces value) direction order weights)

end Jet3.LocaleText
