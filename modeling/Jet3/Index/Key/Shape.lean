import Jet3.Index.Key.PrefixFree

/-!
# Shapes of key components

A stored key is checked against the columns of its index: each component must be one the column can
have, also where the key was shortened inside the component.

* `KeyPrefix` is the answer for the first component of a key;
* `Binary.prefixOf`, `Text.prefixOf` and `LocaleText.prefixOf` give it for one kind of data, and
  `ScalarKeyType.prefixOf` for a column;
* `Text.ComponentTables.Spelled` bounds the source bytes that weights can come from.
-/

namespace Jet3

/-- What a key begins with: a component of this length, or a part of one, where the key ends inside
it. -/
inductive KeyPrefix where
  | complete (length : ℕ)
  | cut (maximum : ℕ)
  deriving DecidableEq, Repr

/-! ## Binary data -/

namespace Binary

/-- A piece of a binary value with the byte behind it. -/
def framedChunkBytes : ℕ := chunkBytes + 1

/-- The chunks from `offset` on, behind `consumed` bytes of the value. -/
def chunksPrefix (mask : UInt8) (maximum consumed offset : ℕ) : List UInt8 → Option KeyPrefix
  | a :: b :: c :: d :: e :: f :: g :: h :: suffix :: rest =>
    if maximum ≤ consumed then none
    else if suffix = continued then
      chunksPrefix mask maximum (consumed + chunkBytes) (offset + framedChunkBytes) rest
    else
      let length := (suffix ^^^ mask).toNat
      if ¬(1 ≤ length ∧ length ≤ min (maximum - consumed) chunkBytes) ∨
          ([a, b, c, d, e, f, g, h].drop length).any (· ≠ mask) then none
      else some (.complete (offset + framedChunkBytes))
  | chunk =>
    if maximum ≤ consumed then none
    else if (chunk.drop (min (maximum - consumed) chunkBytes)).any (· ≠ mask) then none
    else some (.cut (1 + framedChunkBytes * ((maximum + chunkBytes - 1) / chunkBytes)))

/-- Checks a present component, including a prefix cut by whole-key shortening. -/
def prefixOf (key : List UInt8) (maximum : UInt8) (direction : IndexDirection) : Option KeyPrefix :=
  if key.isEmpty then none else chunksPrefix direction.mask maximum.toNat 0 1 (key.drop 1)

end Binary

/-! ## Texts -/

namespace Text

/-- What a sort order knows of weights: which there are, which carry a secondary weight and which
ones, how many source bytes a weight costs, and which two weights a single byte can have. -/
structure ComponentTables where
  weight : UInt8 → Bool
  accented : UInt8 → Bool
  allowed : UInt8 → UInt8 → Bool
  cost : UInt8 → ℕ
  expansion : UInt8 → UInt8 → Bool

namespace ComponentTables

/-- The source bytes that primary weights with these secondary weights take at least. -/
def sourceBytes (tables : ComponentTables) : List (UInt8 × UInt8) → ℕ
  | [] => 0
  | [(weight, _)] => tables.cost weight
  | (first, secondary) :: (second, secondary') :: rest =>
    if tables.expansion first second ∧ secondary = 2 ∧ secondary' =
      2 then 1 + tables.sourceBytes rest
    else tables.cost first + tables.sourceBytes ((second, secondary') :: rest)

/-- Gives a secondary weight to the next accented primary weight; those before it are neutral. -/
def takeSecondary (tables : ComponentTables) (nibble : UInt8) :
    List UInt8 → Option (List (UInt8 × UInt8) × List UInt8)
  | [] => none
  | weight :: rest =>
    if tables.accented weight then
      if tables.allowed weight nibble then some ([(weight, nibble)], rest) else none
    else (tables.takeSecondary nibble rest).map fun found => ((weight, 2) :: found.1, found.2)

/-- The secondary weights from the nibble `index` of the key on. -/
def scan (tables : ComponentTables) (maximum : ℕ) (done : List (UInt8 × UInt8))
    (pending : List UInt8)
    (last : UInt8) (index : ℕ) : List UInt8 → Option KeyPrefix
  | [] =>
    if tables.sourceBytes (done ++ pending.map fun weight => (weight, 2)) > maximum then none
    else some (.cut (3 * maximum + 2))
  | nibble :: rest =>
    if nibble = 0 then
      -- the nibble behind a terminator in the high half of a byte is padding
      if last = 2 ∨ (index % 2 = 0 ∧ rest.head?.any (· ≠ 0)) ∨
          tables.sourceBytes (done ++ pending.map fun weight => (weight, 2)) > maximum then none
      else some (.complete (index / 2 + 1))
    else
      match tables.takeSecondary nibble pending with
      | none => none
      | some (taken, pending) => tables.scan maximum (done ++ taken) pending nibble (index + 1) rest

/-- The halves of bytes, the high one first. -/
def halves (bytes : List UInt8) : List UInt8 :=
  bytes.flatMap fun byte : UInt8 => ([byte >>> 4, byte &&& 15] : List UInt8)

/-- The loop of `prefix` over a key: primary weights, and secondary weights behind them. -/
def prefixOf (tables : ComponentTables) (key : List UInt8) (maximum : UInt8)
    (direction : IndexDirection) : Option KeyPrefix :=
  let bytes := (key.drop 1).map (· ^^^ direction.mask)
  let primary := bytes.takeWhile fun byte => 0x10 ≤ byte
  if (primary.any fun weight => !tables.weight weight) ∨ 2 * maximum.toNat <
    primary.length then none
  else
    tables.scan maximum.toNat [] primary 0 (2 * (1 + primary.length) + 1)
      ((halves (bytes.drop primary.length)).drop 1)

end ComponentTables

/-- Which secondary weights a primary weight may have. -/
def allowedSecondary (primary secondary : UInt8) : Bool :=
  secondary == 2 ||
    match primary.toNat with
    | 0x60 => secondary ∈ [3, 4, 5, 6, 7, 8]
    | 0x62 => secondary ∈ [9]
    | 0x66 | 0x6a | 0x78 => secondary ∈ [3, 4, 5, 6]
    | 0x70 => secondary ∈ [7]
    | 0x72 => secondary ∈ [3, 4, 5, 6, 7]
    | 0x76 => secondary ∈ [10]
    | 0x7d => secondary ∈ [4, 6]
    | _ => false

/-- The tables of `text::prefix`; only AE, OE and SS can come from a single byte. -/
def generalTables : ComponentTables where
  weight byte := (0x10 ≤ byte ∧ byte ≤ 0x62) ∨ (0x64 ≤ byte ∧ byte ≤ 0x6d) ∨
    (0x6f ≤ byte ∧ byte ≤ 0x70) ∨ (0x72 ≤ byte ∧ byte ≤ 0x78) ∨ (0x7a ≤ byte ∧ byte ≤ 0x7f) ∨
    byte = 0x81
  accented := accentedPrimary
  allowed := allowedSecondary
  cost _ := 1
  expansion first second :=
    ((first = 0x60 ∨ first = 0x72) ∧ second = 0x66) ∨ (first = 0x76 ∧ second = 0x76)

/-- How much of a key is one component of the general order. -/
def prefixOf (key : List UInt8) (maximum : UInt8) (direction : IndexDirection) : Option KeyPrefix :=
  generalTables.prefixOf key maximum direction

end Text

namespace LocaleText

/-- The tables of `locale_text::prefix`. -/
def componentTables (weights : Weights) : Text.ComponentTables where
  weight byte := weights.sourceCost.getD byte.toNat 0 ≠ 0
  accented := accented weights
  allowed weight nibble := (weights.accents.getD weight.toNat 0).testBit nibble.toNat
  cost weight := weights.sourceCost.getD weight.toNat 0
  expansion first second := weights.expansions.contains [first.toNat, second.toNat]

/-- How much of a key is one component of a sort order. -/
def prefixOf (key : List UInt8) (maximum : UInt8) (direction : IndexDirection) (order : SortOrder) :
    Option KeyPrefix :=
  if order = .general then Text.prefixOf key maximum direction
  else (weights order).bind fun weights => (componentTables weights).prefixOf key maximum direction

end LocaleText

/-! ## Columns -/

namespace ScalarKeyType

/-- The longest component a type can have. -/
def maximumLength : ScalarKeyType → ℕ
  | boolean | byte => 2
  | integer => 3
  | long | single => 5
  | currency | double | dateTime => 9
  | binary maxLen => 1 + 9 * ((maxLen.toNat + 7) / 8)
  | text maxLen _ => 3 * maxLen.toNat + 2
  | guid => 19

/-- The bytes of a component of fixed length that are checked. -/
def fixedShape (kind : ScalarKeyType) (key : List UInt8) (direction : IndexDirection) : Bool :=
  if kind = guid then
    !(key[9]?.any (· ≠ 9)) && !(key[18]?.any (· ≠ 8 ^^^ direction.mask))
  else if kind = boolean then !(key[1]?.any fun byte => byte ≠ 0 ∧ byte ≠ 0xff)
  else true

/-- How much of a key is one component of a type: all of it is read, or the key was cut inside. -/
def prefixOf (kind : ScalarKeyType) (key : List UInt8) (direction : IndexDirection) :
    Option KeyPrefix :=
  match key.head? with
  | none => some (.cut kind.maximumLength)
  | some marker =>
    if marker ^^^ direction.mask = 0 then
      if kind = boolean then none else some (.complete 1)
    else if marker ^^^ direction.mask = 0x7f then
      match kind with
      | binary maxLen => Binary.prefixOf key maxLen direction
      | text maxLen sortOrder => LocaleText.prefixOf key maxLen direction sortOrder
      | kind =>
        if fixedShape kind key direction then
          if key.length < kind.maximumLength then some (.cut kind.maximumLength)
          else some (.complete kind.maximumLength)
        else none
    else none

end ScalarKeyType

/-! ## Source bytes -/

namespace Text.ComponentTables

variable {tables : ComponentTables}

/-- No weight of an expansion costs more than the byte of the expansion. -/
def Costs (tables : ComponentTables) : Prop :=
  ∀ first second, tables.expansion first second = true → tables.cost first = 1 ∧
  tables.cost second = 1

/-- Weights of at most `n` source bytes. -/
inductive Spelled (tables : ComponentTables) : ℕ → List (UInt8 × UInt8) → Prop
  | nil (n : ℕ) : Spelled tables n []
  | single {n k : ℕ} {weight secondary : UInt8} {rest : List (UInt8 × UInt8)}
      (hcost : tables.cost weight ≤ k) (hrest : Spelled tables n rest) :
      Spelled tables (k + n) ((weight, secondary) :: rest)
  | pair {n : ℕ} {first second : UInt8} {rest : List (UInt8 × UInt8)}
      (hexpansion : tables.expansion first second = true) (hrest : Spelled tables n rest) :
      Spelled tables (1 + n) ((first, 2) :: (second, 2) :: rest)

/-- A weight adds its cost at most, and never saves a byte. -/
theorem sourceBytes_cons (h : tables.Costs) (entry : UInt8 × UInt8) (rest : List (UInt8 × UInt8)) :
    tables.sourceBytes (entry :: rest) ≤ tables.cost entry.1 + tables.sourceBytes rest ∧
      tables.sourceBytes rest ≤ tables.sourceBytes (entry :: rest) := by
  induction rest generalizing entry with
  | nil => simp [sourceBytes]
  | cons next rest ih =>
    obtain ⟨first, secondary⟩ := entry
    obtain ⟨second, secondary'⟩ := next
    obtain ⟨hle, hge⟩ := ih (second, secondary')
    rw [sourceBytes]
    split
    next hpair =>
      obtain ⟨hfirst, hsecond⟩ := h first second hpair.1
      simp only [hfirst, hsecond] at hle hge ⊢
      omega
    next hpair => exact ⟨le_rfl, Nat.le_add_left _ _⟩

/-- The weights that a text spells need no more characters than it has. -/
theorem Spelled.sourceBytes_le (h : tables.Costs) {n : ℕ} {entries : List (UInt8 × UInt8)}
    (hspelled : tables.Spelled n entries) : tables.sourceBytes entries ≤ n := by
  induction hspelled with
  | nil n => exact Nat.zero_le n
  | single hcost hrest ih => exact ((sourceBytes_cons h _ _).1).trans (Nat.add_le_add hcost ih)
  | pair hexpansion hrest ih =>
    rw [sourceBytes, if_pos ⟨hexpansion, rfl, rfl⟩]
    omega

/-- Neutral secondary weights cost no more. -/
theorem Spelled.reset {n : ℕ} {entries entries' : List (UInt8 × UInt8)}
    (h : tables.Spelled n entries)
    (hreset : List.Forall₂ (fun a b : UInt8 × UInt8 => b.1 = a.1 ∧ (b.2 = a.2 ∨ b.2 = 2)) entries
      entries') :
    tables.Spelled n entries' := by
  induction h generalizing entries' with
  | nil n =>
    cases hreset
    exact .nil n
  | single hcost hrest ih =>
    rcases hreset with _ | ⟨⟨hweight, -⟩, hreset⟩
    rename_i entry rest'
    obtain ⟨weight, secondary⟩ := entry
    obtain rfl : weight = _ := hweight
    exact .single hcost (ih hreset)
  | pair hexpansion hrest ih =>
    rcases hreset with _ | ⟨⟨hfirst, hfirst'⟩, _ | ⟨⟨hsecond, hsecond'⟩, hreset⟩⟩
    rename_i first' second' rest'
    obtain ⟨first, secondary⟩ := first'
    obtain ⟨second, secondary'⟩ := second'
    obtain rfl : first = _ := hfirst
    obtain rfl : second = _ := hsecond
    obtain rfl : secondary = 2 := hfirst'.elim id id
    obtain rfl : secondary' = 2 := hsecond'.elim id id
    exact .pair hexpansion (ih hreset)

/-- The first weights take no more bytes. -/
theorem Spelled.take (h : tables.Costs) {n : ℕ} {entries : List (UInt8 × UInt8)}
    (hspelled : tables.Spelled n entries) (count : ℕ) : tables.Spelled n (entries.take count) := by
  induction hspelled generalizing count with
  | nil n =>
    rw [List.take_nil]
    exact .nil n
  | single hcost hrest ih =>
    rcases count with _ | count
    · exact .nil _
    · exact .single hcost (ih count)
  | pair hexpansion hrest ih =>
    -- a count of one splits the expansion
    rcases count with _ | _ | count
    · exact .nil _
    · exact .single (h _ _ hexpansion).1.le (.nil _)
    · exact .pair hexpansion (ih count)

end Text.ComponentTables

end Jet3
