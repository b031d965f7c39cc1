import Jet3.Format.Page
import Jet3.Library.Range

/-!
# Property blobs

The codec of catalog property blobs: a signature, a dictionary of names, then named blocks whose
records refer to the names by their ordinal. Every byte of a parsed blob is retained.

A blob comes from bytes that may hold anything. What would stop the parser (an index outside a
slice) is a failure of its own, `PropertyFault.panic`.
-/

namespace Jet3

open Outcome ByteRange

/-- `KKD\0`. -/
def propertySignature : List UInt8 := [0x4b, 0x4b, 0x44, 0]

/-- The kind of the block with the names. -/
def dictionaryKind : UInt16 := 0x80
/-- The bytes before the names: the signature and the header of their block. -/
def dictionaryHeader : ℕ := 10
/-- The bytes of a block besides its name and its records. -/
def blockHeader : ℕ := 12
/-- The bytes of a record before its data. -/
def recordHeader : ℕ := 6

/-- Why a blob, or an edit of one, is refused. -/
inductive ColumnPropertyError where
  | invalid (detail : String)
  deriving DecidableEq, Repr

/-- How parsing a blob ends when it does not succeed. -/
inductive PropertyFault where
  | panic
  | error (source : ColumnPropertyError)
  deriving DecidableEq, Repr

/-- The fault of a blob that is not well formed. -/
def invalid (detail : String) : PropertyFault :=
  .error (.invalid detail)

/-! ## Records -/

/-- One named property value; `data` is everything after the ordinal. -/
structure PropertyRecord where
  flag : UInt8
  kind : UInt8
  name : UInt16
  data : List UInt8
  framed : 2 ≤ data.length ∧ recordHeader + data.length < 2 ^ 16
  deriving DecidableEq, Repr

namespace PropertyRecord

/-- A record with a value, where its length can be stored. -/
def new (flag kind : UInt8) (name : UInt16) (value : List UInt8) :
    Except ColumnPropertyError PropertyRecord :=
  if h : value.length + 2 + recordHeader < 2 ^ 16 then
    .ok { flag, kind, name, data := leBytes 2 value.length ++ value
          framed := by simp only [List.length_append, length_leBytes]; omega }
  else .error (.invalid "property value length")

/-- The length-prefixed value, when the record uses that framing. -/
def value (record : PropertyRecord) : Option (List UInt8) :=
  if leValue (record.data.take 2) = (record.data.drop 2).length then some (record.data.drop 2)
  else none

/-- The stored length of a record behind its own length field. -/
def len (record : PropertyRecord) : ℕ :=
  recordHeader + record.data.length

end PropertyRecord

/-! ## Blocks -/

/-- One block of records. -/
structure PropertyBlock where
  kind : UInt16
  name : List UInt8
  records : List PropertyRecord
  name_lt : name.length < 2 ^ 16
  deriving DecidableEq, Repr

namespace PropertyBlock

/-- A block without records, where the length of its name can be stored. -/
def new (kind : UInt16) (name : List UInt8) : Except ColumnPropertyError PropertyBlock :=
  if h : name.length < 2 ^ 16 then .ok { kind, name, records := [], name_lt := h }
  else .error (.invalid "property block name length")

/-- The first record of the block under a name. -/
def record (block : PropertyBlock) (name : UInt16) : Option PropertyRecord :=
  block.records.find? fun record => record.name = name

/-- Gives the block another name and keeps its records. -/
def rename (block : PropertyBlock) (name : List UInt8) :
    Except ColumnPropertyError PropertyBlock := do
  let renamed ← new block.kind name
  return { renamed with records := block.records }

/-- Replaces the record with the same dictionary ordinal in place, or appends it. -/
def set (block : PropertyBlock) (record : PropertyRecord) : PropertyBlock :=
  match block.records.findIdx? fun other => other.name = record.name with
  | some position => { block with records := block.records.set position record }
  | none => { block with records := block.records ++ [record] }

/-- Drops every record under a name. -/
def remove (block : PropertyBlock) (name : UInt16) : PropertyBlock :=
  { block with records := block.records.filter fun record => record.name ≠ name }

/-- The stored length of a block with its header. -/
def len (block : PropertyBlock) : ℕ :=
  blockHeader + block.name.length + (block.records.map PropertyRecord.len).sum

end PropertyBlock

/-! ## Blobs -/

/-- A complete property payload. -/
structure PropertyBlob where
  dictionaryKind : UInt16
  names : List (List UInt8)
  blocks : List PropertyBlock
  deriving DecidableEq, Repr

namespace PropertyBlob

/-- A blob without names and blocks. -/
def empty : PropertyBlob :=
  { dictionaryKind := Jet3.dictionaryKind, names := [], blocks := [] }

/-! ### Parsing -/

/-- A name of the dictionary; it is not empty and ends inside the dictionary. -/
def readName (data : List UInt8) (stop position : ℕ) : Option (List UInt8) := do
  let length ← numberAt data position 2
  let name ← getRange data (position + 2) (position + 2 + length)
  if name ≠ [] ∧ position + 2 + name.length ≤ stop then some name else none

/-- The loop over the names; returns them and the position behind them. -/
def parseNames (data : List UInt8) (stop position : ℕ) (names : List (List UInt8)) :
    Except PropertyFault (List (List UInt8) × ℕ) :=
  if position < stop then
    match readName data stop position with
    | none => .error (invalid "property dictionary name bounds")
    | some name =>
      if names.length > 65535 then .error (invalid "property dictionary name bounds")
      else parseNames data stop (position + 2 + name.length) (names ++ [name])
  else .ok (names, position)
termination_by stop - position

/-- The bytes of a record; the length they begin with has two bytes. -/
def readRecord (block : List UInt8) (position : ℕ) :
    Option { record : List UInt8 // recordHeader + 2 ≤ record.length ∧ record.length < 2 ^ 16 } :=
  let length := (numberAt block position 2).getD 0
  (getRange block position (position + length)).bind fun record =>
    if h : recordHeader + 2 ≤ record.length ∧ record.length < 2 ^ 16 then some ⟨record, h⟩ else none

/-- The loop over the records of a block. -/
def parseRecords (names : List (List UInt8)) (block : List UInt8) (position : ℕ)
    (parsed : PropertyBlock) : Except PropertyFault PropertyBlock :=
  if position < block.length then
    match readRecord block position with
    | none => .error (invalid "property record bounds")
    | some ⟨record, h⟩ =>
      let name := leAt record 4 2
      if name ≥ names.length then .error (invalid "property dictionary reference")
      else
        have framed : 2 ≤ (record.drop recordHeader).length ∧
            recordHeader + (record.drop recordHeader).length < 2 ^ 16 := by
          rw [List.length_drop]
          omega
        parseRecords names block (position + record.length)
          { parsed with
            records := parsed.records ++ [{ flag := byteAt record 2, kind := byteAt record 3
                                            name := UInt16.ofNat name
                                            data := record.drop recordHeader, framed }] }
  else .ok parsed
termination_by block.length - position
decreasing_by
  simp only [recordHeader] at h
  omega

/-- Reads a block whose bytes were cut out by its own length field. -/
def parseBlock (names : List (List UInt8)) (block : List UInt8) :
    Except PropertyFault PropertyBlock := do
  let kind ← okOr (numberAt block 4 2) .panic
  let nameFrame ← okOr (numberAt block 6 4) (invalid "property field-name framing")
  let nameLength := (numberAt block 10 2).getD 0
  refuseIf (nameFrame ≠ nameLength + 6) (invalid "property field-name framing")
  let name ← okOr (getRange block blockHeader (blockHeader + nameLength))
    (invalid "property field-name bounds")
  let parsed ← (PropertyBlock.new (UInt16.ofNat kind) name).mapError .error
  parseRecords names block (blockHeader + nameLength) parsed

/-- The end of the block at a position; it holds its header and ends inside the bytes. -/
def blockEnd (data : List UInt8) (position : ℕ) :
    Option { stop : ℕ // position < stop ∧ stop ≤ data.length } :=
  (numberAt data position 4).bind fun length =>
    if h : blockHeader ≤ length ∧ position + length ≤ data.length then
      some ⟨position + length, by simp only [blockHeader] at h; omega, h.2⟩
    else none

/-- The loop over the blocks. -/
def parseBlocks (data : List UInt8) (names : List (List UInt8)) (position : ℕ)
    (blocks : List PropertyBlock) : Except PropertyFault (List PropertyBlock) :=
  if position < data.length then
    match blockEnd data position with
    | none => .error (invalid "property block bounds")
    | some ⟨stop, _⟩ => do
      let block ← okOr (getRange data position stop) .panic
      let parsed ← parseBlock names block
      parseBlocks data names stop (blocks ++ [parsed])
  else .ok blocks
termination_by data.length - position

/-- The end of the dictionary, which the length at the start names. -/
def dictionaryEnd (data : List UInt8) : Option ℕ :=
  (numberAt data 4 4).bind fun length =>
    if dictionaryHeader ≤ length + 4 ∧ length + 4 ≤ data.length then some (length + 4) else none

/-- Reads a blob: the signature, the names, and then one block after the other. -/
def parse (data : List UInt8) : Except PropertyFault PropertyBlob := do
  refuseIf (getRange data 0 4 ≠ some propertySignature) (invalid "property signature")
  let stop ← okOr (dictionaryEnd data) (invalid "property block bounds")
  let kind ← okOr (numberAt data 8 2) (invalid "property block bounds")
  refuseIf (kind ≠ Jet3.dictionaryKind.toNat) (invalid "property dictionary kind")
  let (names, position) ← parseNames data stop dictionaryHeader []
  let blocks ← parseBlocks data names position []
  return { dictionaryKind := UInt16.ofNat kind, names, blocks }

/-! ### Encoding -/

/-- The error of a number that its field cannot store. -/
def tooLong : Error :=
  .arithmetic "property blob length"

/-- A number of `width` bytes, when it fits them. -/
def writeNumber (width n : ℕ) : Except Error (List UInt8) := do
  refuseIf (¬n < 256 ^ width) tooLong
  return leBytes width n

/-- Writes a name behind its length. -/
def writeName (name : List UInt8) : Except Error (List UInt8) := do
  let length ← writeNumber 2 name.length
  return length ++ name

/-- Writes a record behind its length. -/
def writeRecord (record : PropertyRecord) : Except Error (List UInt8) := do
  let length ← writeNumber 2 record.len
  return length ++ ([record.flag, record.kind] ++ (leBytes 2 record.name.toNat ++ record.data))

/-- Writes a block behind its length. -/
def writeBlock (block : PropertyBlock) : Except Error (List UInt8) := do
  let length ← writeNumber 4 block.len
  let records ← block.records.mapM writeRecord
  return length ++ (leBytes 2 block.kind.toNat ++ (leBytes 4 (block.name.length + 6) ++
    (leBytes 2 block.name.length ++ (block.name ++ records.flatten))))

/-- `encode`. -/
def encode (blob : PropertyBlob) : Except Error (List UInt8) := do
  let dictionary ← writeNumber 4
    (dictionaryHeader - 4 + (blob.names.map fun name => 2 + name.length).sum)
  let names ← blob.names.mapM writeName
  let blocks ← blob.blocks.mapM writeBlock
  return propertySignature ++ (dictionary ++ (leBytes 2 blob.dictionaryKind.toNat ++
    (names.flatten ++ blocks.flatten)))

/-! ### Editing -/

/-- The ordinal of a name in the dictionary. -/
def ordinal (blob : PropertyBlob) (name : List UInt8) : Option UInt16 :=
  match blob.names.findIdx? fun existing => existing = name with
  | some position => if position < 2 ^ 16 then some (UInt16.ofNat position) else none
  | none => none

/-- The dictionary ordinal of a name, which is appended when it is absent. -/
def intern (blob : PropertyBlob) (name : List UInt8) :
    Except ColumnPropertyError (PropertyBlob × UInt16) :=
  match blob.ordinal name with
  | some ordinal => .ok (blob, ordinal)
  | none =>
    if blob.names.length < 2 ^ 16 then
      .ok ({ blob with names := blob.names ++ [name] }, UInt16.ofNat blob.names.length)
    else .error (.invalid "property dictionary capacity")

/-- Edits the block at a position. -/
def modifyBlock (blob : PropertyBlob) (position : ℕ)
    (edit : PropertyBlock → Except ColumnPropertyError PropertyBlock) :
    Except ColumnPropertyError PropertyBlob := do
  let block ← okOr blob.blocks[position]? (.invalid "property block position")
  let edited ← edit block
  return { blob with blocks := blob.blocks.set position edited }

end PropertyBlob

/-- One editing operation. -/
inductive PropertyEdit where
  | intern (name : List UInt8)
  | push (block : PropertyBlock)
  | set (position : ℕ) (record : PropertyRecord)
  | remove (position : ℕ) (name : UInt16)
  | rename (position : ℕ) (name : List UInt8)
  | retain (keep : PropertyBlock → Bool)

/-- Performs an editing operation. -/
def PropertyEdit.apply (blob : PropertyBlob) :
    PropertyEdit → Except ColumnPropertyError PropertyBlob
  | .intern name => Prod.fst <$> blob.intern name
  | .push block => .ok { blob with blocks := blob.blocks ++ [block] }
  | .set position record => blob.modifyBlock position fun block => .ok (block.set record)
  | .remove position name => blob.modifyBlock position fun block => .ok (block.remove name)
  | .rename position name => blob.modifyBlock position fun block => block.rename name
  | .retain keep => .ok { blob with blocks := blob.blocks.filter keep }

end Jet3
