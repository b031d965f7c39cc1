import Jet3.Index.Entry

/-!
# Catalog name keys

Object names collide where their components in the unique (ParentId, Name) index of the catalog are
equal. Two tests decide this: the comparison of two names, with a shortcut for plain ASCII names in
the General order, and the checks of creation and renaming that use it.
-/

namespace Jet3

open Outcome

/-- Marker and four-byte signed Long component. -/
def longComponentLen : ℕ := 5

/-- Table names have at most 64 bytes, and a Text component at most three times as many and two. -/
def maxCreationKeyBytes : ℕ := longComponentLen + 3 * 64 + 2

/-- Why a name has no key. -/
inductive CatalogNameKeyError where
  | emptyName
  | unmappedNameByte (position : ℕ) (byte : UInt8)
  | nameTooLong (length maximum : ℕ)
  | keyTooLong (needed available : ℕ)
  deriving DecidableEq, Repr

/-- `supported_name_byte_for`: no control, none of five punctuation bytes, and a character of the
code page. -/
def supportedNameByteFor (byte : UInt8) (order : SortOrder) : Bool :=
  0x20 ≤ byte ∧ byte ∉ [0x21, 0x2e, 0x5b, 0x5d, 0x60, 0x7f] ∧
    order.codePage.any fun page => (mappedCharacter page byte).isSome

/-- The checks of a name before it gets a key: its length, its first byte, and every byte of it. -/
def validateCatalogName (name : List UInt8) (order : SortOrder) :
    Except CatalogNameKeyError Unit := do
  refuseIf name.isEmpty .emptyName
  refuseIf (name.length > 64) (.nameTooLong name.length 64)
  refuseIf (name.head? = some 0x20) (.unmappedNameByte 0 0x20)
  forM name.zipIdx fun entry =>
    refuseIf (supportedNameByteFor entry.1 order = false) (.unmappedNameByte entry.2 entry.1)

/-- A byte the code page of an order assigns no character. -/
def unmappedByte (order : SortOrder) (byte : UInt8) : Bool :=
  order.codePage.all fun page => (mappedCharacter page byte).isNone

/-- `NameKey::new`: the Text component of a name. -/
def nameKey (name : List UInt8) (order : SortOrder) : Except CatalogNameKeyError (List UInt8) := do
  refuseIf (name.length > 64) (.nameTooLong name.length 64)
  forM name.zipIdx fun entry =>
    refuseIf (unmappedByte order entry.1) (.unmappedNameByte entry.2 entry.1)
  okOr (LocaleText.encode name 64 .ascending order) (.nameTooLong name.length 64)

/-- Whether every byte is an ASCII character. -/
def isAscii (name : List UInt8) : Bool :=
  name.all (· < 0x80)

/-- Whether the name ends in a space, which keys leave out. -/
def endsWithSpace (name : List UInt8) : Bool :=
  name.getLast? = some 0x20

/-- `eq_ignore_ascii_case`. -/
def eqIgnoreAsciiCase (left right : List UInt8) : Bool :=
  left.map LocaleText.asciiLowercase = right.map LocaleText.asciiLowercase

/-- Plain names of the General order are compared without their keys. -/
def comparesPlainly (order : SortOrder) (left right : List UInt8) : Bool :=
  order = .general ∧ isAscii left ∧ isAscii right ∧ ¬endsWithSpace left ∧ ¬endsWithSpace right

/-- Names collide when the unique ParentId/Name catalog key is identical. -/
def catalogNamesEqual (left right : List UInt8) (order : SortOrder) : Bool :=
  if left.length > 64 ∨ right.length > 64 then false
  else if comparesPlainly order left right then eqIgnoreAsciiCase left right
  else
    match nameKey left order, nameKey right order with
    | .ok a, .ok b => a = b
    | _, _ => false

/-- The component of a ParentId. -/
def parentComponent (parent : Int32) : List UInt8 :=
  0x7f :: flipSign (beBytes 4 parent.toUInt32.toNat)

/-- `encode_catalog_name_key`, into a buffer of `available` bytes. -/
def encodeCatalogNameKey (parent : Int32) (name : List UInt8) (available : ℕ) :
    Except CatalogNameKeyError (List UInt8) := do
  validateCatalogName name .general
  let component ← nameKey name .general
  let needed := longComponentLen + component.length
  refuseIf (available < needed) (.keyTooLong needed available)
  return parentComponent parent ++ component

/-- The fields of the ParentId/Name index in a database of an order. -/
def catalogNameFields (order : SortOrder) : List ScalarIndexField :=
  [{ column := 0, direction := .ascending, kind := .long },
    { column := 1, direction := .ascending, kind := .text 64 order }]

/-- The key of a name in the ParentId/Name index. -/
def catalogIndexKey (parent : Int32) (name : List UInt8) (order : SortOrder) :
    Option (List UInt8) :=
  match ScalarIndexEntry.encode (catalogNameFields order) [.long parent, .text name] .include
      { page := 0, slot := 0 } with
  | .ok (some entry) => some entry.key
  | _ => none

/-! ## Checks of names -/

/-- Which two names of a request are equal. -/
inductive DuplicateNameError where
  /-- Two tables of one request. -/
  | tables (first second : ℕ)
  /-- Two columns or indexes of one table. -/
  | schema (role : String) (ordinal : ℕ)
  /-- A new name and an existing one. -/
  | edit (detail : String)
  deriving DecidableEq, Repr

/-- `validate_distinct_name`: a name of a new table is compared with the earlier ones. -/
def validateDistinctName (order : SortOrder) (role : String) (ordinal : ℕ) (name : List UInt8)
    (earlier : List (List UInt8)) : Except DuplicateNameError Unit :=
  forM earlier fun other => do
    if other.length > 64 then return ()
    else
      let equal := if comparesPlainly order name other then eqIgnoreAsciiCase name other
        else catalogNamesEqual other name order
      refuseIf equal (.schema role ordinal)

/-- The names of one role, each against those before it. -/
def validateDistinctNames (order : SortOrder) (role : String) (names : List (List UInt8)) :
    Except DuplicateNameError Unit :=
  forM names.zipIdx fun entry =>
    validateDistinctName order role entry.2 entry.1 (names.take entry.2)

/-- The tables a new database is composed of, each against those before it. -/
def validateDistinctTables (names : List (List UInt8)) : Except DuplicateNameError Unit :=
  forM names.zipIdx fun entry =>
    match (names.take entry.2).findIdx? fun earlier =>
        catalogNamesEqual earlier entry.1 .general with
    | some first => .error (.tables first entry.2)
    | none => .ok ()

/-- `distinct`: a new name of a schema edit against the existing ones. -/
def validateNewName (order : SortOrder) (name : List UInt8) (others : List (List UInt8)) :
    Except DuplicateNameError Unit :=
  forM others fun other =>
    refuseIf (catalogNamesEqual name other order) (.edit "duplicate schema name")

end Jet3
