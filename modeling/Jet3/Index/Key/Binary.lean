import Jet3.Row.Value

/-!
# Binary framing and whole-key shortening

A binary component is a marker and one nine-byte chunk per eight value bytes: the bytes padded to
eight, then their number in the last chunk and `CONTINUED` in the others. A key longer than
`maxKeyBytes` keeps all but its last bytes and a checksum of the rest.
-/

namespace Jet3

/-- The longest stored key. -/
def maxKeyBytes : ℕ := 255

namespace Binary

/-- The bytes a longer key keeps before the two bytes of its checksum. -/
def prefixBytes : ℕ := maxKeyBytes - 2

/-- Binary values are cut into pieces of eight bytes. -/
def chunkBytes : ℕ := 8

/-- The byte behind a piece that is not the last. -/
def continued : UInt8 := 9

/-- The chunks of a value. The suffix of a chunk that is continued is not complemented. -/
def chunks (mask : UInt8) : List UInt8 → List UInt8
  | a :: b :: c :: d :: e :: f :: g :: h :: i :: rest =>
    [a, b, c, d, e, f, g, h].map (· ^^^ mask) ++ continued :: chunks mask (i :: rest)
  | last =>
    last.map (· ^^^ mask) ++ List.replicate (chunkBytes - last.length) mask ++
      [UInt8.ofNat last.length ^^^ mask]

/-- A binary value as a marker and its pieces; an empty value has the key of null. -/
def encode (value : List UInt8) (maximum : ℕ) (direction : IndexDirection) :
    Option (List UInt8) :=
  if value.length > maximum then none
  else if value.isEmpty then some [direction.mask]
  else some ((0x7f ^^^ direction.mask) :: chunks direction.mask value)

/-- One shift of the checksum register. -/
def checksumShift (checksum : UInt16) : UInt16 :=
  (checksum <<< 1) ^^^ if checksum &&& 0x8000 ≠ 0 then 0x8005 else 0

/-- The checksum of the bytes a shortened key drops. -/
def checksum (bytes : List UInt8) : UInt16 :=
  bytes.foldl (fun checksum byte => checksumShift^[8] checksum ^^^ byte.toUInt16) 0

/-- A key of at most 255 bytes: a longer one ends in the checksum of what is cut off. -/
def shorten (key : List UInt8) : List UInt8 :=
  if key.length ≤ maxKeyBytes then key
  else key.take prefixBytes ++ leBytes 2 (checksum (key.drop prefixBytes)).toNat

end Binary

end Jet3
