import Jet3.Row.Value
import Jet3.Index.Key.TextWeights

/-!
# Text keys in the General sort order

A text component is a marker, the primary weights of its characters, and the secondary weights of
the accented ones packed two to a byte behind a zero nibble. The stored text keeps its bytes; only
its trailing spaces are ignored.
-/

namespace Jet3.Text

/-- `value` without its trailing spaces. -/
def trimSpaces (value : List UInt8) : List UInt8 :=
  (value.reverse.dropWhile (· = 0x20)).reverse

/-- The nonzero bytes of a primary weight, most significant first. -/
def weightBytes (primary : ℕ) : List UInt8 :=
  [UInt8.ofNat (primary / 256), UInt8.ofNat primary].filter (· ≠ 0)

/-- The secondary weights without the neutral ones at their end. -/
def trimNeutral (secondary : List UInt8) : List UInt8 :=
  (secondary.reverse.dropWhile (· = 2)).reverse

/-- Packs nibbles two to a byte, high half first, each byte combined with `mask`. -/
def packNibbles (mask : UInt8) : List UInt8 → List UInt8
  | [] => []
  | [high] => [mask ^^^ (high <<< 4)]
  | high :: low :: rest => (mask ^^^ (high <<< 4) ^^^ low) :: packNibbles mask rest

/-- The bytes of a component: its marker, its primary weights, and its secondary weights between a
leading and a terminating zero nibble. -/
def component (mask : UInt8) (primary secondary : List UInt8) : List UInt8 :=
  (0x7f ^^^ mask) :: primary.map (· ^^^ mask) ++
    packNibbles mask (0 :: trimNeutral secondary ++ [0])

/-- The primary weights whose letters can have accents. -/
def accentedPrimary (weight : UInt8) : Bool :=
  weight ∈ [0x60, 0x62, 0x66, 0x6a, 0x70, 0x72, 0x76, 0x78, 0x7d]

/-- The secondary weight of an accented letter. -/
def accent (byte : UInt8) : Option UInt8 :=
  if byte ∈ [0xc0, 0xc8, 0xcc, 0xd2, 0xd9, 0xe0, 0xe8, 0xec, 0xf2, 0xf9] then some 3
  else if byte ∈ [0xc1, 0xc9, 0xcd, 0xd3, 0xda, 0xdd, 0xe1, 0xe9, 0xed, 0xf3, 0xfa, 0xfd] then
    some 4
  else if byte ∈ [0xc2, 0xca, 0xce, 0xd4, 0xdb, 0xe2, 0xea, 0xee, 0xf4, 0xfb] then some 5
  else if byte ∈ [0x9f, 0xc4, 0xcb, 0xcf, 0xd6, 0xdc, 0xe4, 0xeb, 0xef, 0xf6, 0xfc, 0xff] then
    some 6
  else if byte ∈ [0xc3, 0xd1, 0xd5, 0xe3, 0xf1, 0xf5] then some 7
  else if byte ∈ [0xc5, 0xe5] then some 8
  else if byte ∈ [0xc7, 0xe7] then some 9
  else if byte ∈ [0x8a, 0x9a] then some 10
  else none

/-- The primary weight of a byte; zero marks an undefined byte. -/
def primary (byte : UInt8) : ℕ :=
  TextWeights.primary.getD byte.toNat 0

/-- The key of a text in the general order: primary weights, then secondary ones, without the spaces
at the end. -/
def encode (value : List UInt8) (maximum : UInt8) (direction : IndexDirection) :
    Option (List UInt8) :=
  if value.length > maximum.toNat then none
  else
    let value := trimSpaces value
    if value.any fun byte => primary byte = 0 then none
    else
      some <| component direction.mask
        (value.flatMap fun byte => weightBytes (primary byte))
        (value.flatMap fun byte =>
          ((weightBytes (primary byte)).filter accentedPrimary).map fun _ => (accent byte).getD 2)

end Jet3.Text
