import Jet3.Index.Key.PrefixFree
import Jet3.Library.ByteOrder

/-!
# Key components order as values

What a column orders by, stated without its bytes, and that the components of a column compare as
that does.

* `SortValue` is what a value orders by, and `ScalarKeyType.sortValue` finds it;
* `compare_chunks` and `compare_component` are the formats of variable width: chunks with their
  padding and suffixes, and texts with their trimmed nibbles;
* `ScalarKeyType.compare_encode` covers every column in either direction.
-/

namespace Jet3

open scoped ByteOrder

/-! ## What values order by -/

/-- What a value of a column orders by. -/
inductive SortValue where
  | null
  | number (value : ℤ)
  | bytes (value : List UInt8)
  /-- The primary weights of a text, and the secondary weights of its accented ones. -/
  | text (primary accents : List UInt8)
  deriving DecidableEq, Repr

/-- Null comes first. The values of one column are all of one form, so the last case is not met. -/
def SortValue.compare : SortValue → SortValue → Ordering
  | .null, .null => .eq
  | .null, _ => .lt
  | _, .null => .gt
  | .number m, .number n => Ord.compare m n
  | .bytes a, .bytes b => compareBytes a b
  | .text p a, .text q b => (compareBytes p q).then (compareBytes a b)
  | _, _ => .eq

/-- The comparison of a field in its direction. -/
def IndexDirection.apply : IndexDirection → Ordering → Ordering
  | ascending, ordering => ordering
  | descending, ordering => ordering.swap

/-- The rank of a float with a sign bit above `w` bits of magnitude: negative values reversed, and
below zero also where the magnitude is zero. -/
def floatRank (w bits : ℕ) : ℤ :=
  if bits < 2 ^ w then bits else -(bits - 2 ^ w : ℕ) - 1

/-- The primary weights of a text without its trailing spaces, and the secondary weights of the
accented ones. -/
def LocaleText.sortWeights (order : SortOrder) (value : List UInt8) : List UInt8 × List UInt8 :=
  let value := Text.trimSpaces value
  match weights order with
  | some tables =>
    let units := units order tables value
    (units.flatMap fun unit => Text.weightBytes unit.1,
      units.flatMap fun unit =>
        ((Text.weightBytes unit.1).filter (accented tables)).map fun _ => unit.2)
  | none =>
    (value.flatMap fun byte => Text.weightBytes (Text.primary byte),
      value.flatMap fun byte =>
        ((Text.weightBytes (Text.primary byte)).filter Text.accentedPrimary).map fun _ =>
          (Text.accent byte).getD 2)

/-- What a value orders by in a column. True comes before False, a Boolean column stores a null as
False, and empty binary data is null. -/
def ScalarKeyType.sortValue : ScalarKeyType → RowValue → SortValue
  | boolean, .boolean true => .number (-1)
  | boolean, _ => .number 0
  | byte, .byte value => .number value.toNat
  | integer, .integer value => .number value.toInt
  | long, .long value => .number value.toInt
  | currency, .currency scaled => .number scaled.toInt
  | single, .single bits => .number (floatRank 31 bits.toNat)
  | double, .double bits | dateTime, .dateTime bits => .number (floatRank 63 bits.toNat)
  | binary _, .binary (first :: rest) => .bytes (first :: rest)
  | text _ order, .text bytes =>
    let weights := LocaleText.sortWeights order bytes
    .text weights.1 weights.2
  | guid, .guid bytes => .bytes bytes.toList
  | _, _ => .null

/-! ## Directions -/

namespace IndexDirection

@[simp]
theorem apply_eq_iff {direction : IndexDirection} {ordering : Ordering} :
    direction.apply ordering = .eq ↔ ordering = .eq := by
  cases direction <;> cases ordering <;> decide

theorem apply_then (direction : IndexDirection) (first second : Ordering) :
    direction.apply (first.then second) =
      (direction.apply first).then (direction.apply second) := by
  cases direction <;> cases first <;> rfl

theorem apply_swap (direction : IndexDirection) (ordering : Ordering) :
    direction.apply ordering.swap = (direction.apply ordering).swap := by
  cases direction <;> rfl

end IndexDirection

/-- Directed strings, neither of which is a proper prefix of the other. -/
theorem compareBytes_directed {a b : List UInt8} (direction : IndexDirection)
    (hab : a <+: b → a = b) (hba : b <+: a → a = b) :
    compareBytes (a.map (· ^^^ direction.mask)) (b.map (· ^^^ direction.mask)) =
      direction.apply (compareBytes a b) := by
  cases direction with
  | ascending => simp [IndexDirection.mask, IndexDirection.apply]
  | descending => rw [IndexDirection.mask, compareBytes_complement hab hba, IndexDirection.apply,
      compareBytes_swap]

/-- Complemented bytes of one length compare the other way round. -/
theorem compareBytes_directed_of_length {a b : List UInt8} (direction : IndexDirection)
    (h : a.length = b.length) :
    compareBytes (a.map (· ^^^ direction.mask)) (b.map (· ^^^ direction.mask)) =
      direction.apply (compareBytes a b) :=
  compareBytes_directed direction (fun hab => hab.eq_of_length h)
    fun hba => (hba.eq_of_length h.symm).symm

/-! ## Binary data -/

namespace Binary

/-- A value followed by zeros up to a length. -/
def pad (n : ℕ) (value : List UInt8) : List UInt8 :=
  value ++ List.replicate (n - value.length) 0

@[simp]
theorem length_pad {n : ℕ} {value : List UInt8} (h : value.length ≤ n) :
    (pad n value).length = n := by
  simp [pad, h]

@[simp]
theorem pad_cons (n : ℕ) (byte : UInt8) (value : List UInt8) :
    pad (n + 1) (byte :: value) = byte :: pad n value := by
  simp [pad]

theorem pad_succ_nil (n : ℕ) : pad (n + 1) [] = 0 :: pad n [] := by
  simp [pad, List.replicate_succ]

/-- Nothing lies below zeros. -/
theorem compare_zeros (n : ℕ) {b : List UInt8} (hb : b.length ≤ n) (hne : b ≠ []) :
    (compareBytes (pad n []) (pad n b)).then .lt = .lt := by
  induction n generalizing b with
  | zero => exact absurd (List.length_eq_zero_iff.mp (Nat.le_zero.mp hb)) hne
  | succ n ih =>
    rcases b with _ | ⟨y, b⟩
    · exact absurd rfl hne
    · rw [pad_succ_nil, pad_cons, compareBytes_cons_cons, Ordering.then_assoc]
      rcases lt_or_eq_of_le (show 0 ≤ y from UInt8.zero_le) with hlt | rfl
      · rw [compare_lt_iff_lt.mpr hlt]
        rfl
      · rw [compare_eq_iff_eq.mpr rfl, Ordering.eq_then]
        rcases b with _ | ⟨z, b⟩
        · simp
        · exact ih (by simpa using hb) (List.cons_ne_nil _ _)

/-- Padded values differ where the values do, or else in their lengths. -/
theorem compare_pad {n : ℕ} {a b : List UInt8} (ha : a.length ≤ n) (hb : b.length ≤ n) :
    compareBytes a b = (compareBytes (pad n a) (pad n b)).then (compare a.length b.length) := by
  induction a generalizing n b with
  | nil =>
    rcases b with _ | ⟨y, b⟩
    · simp
    · rw [compareBytes_nil_cons, compare_lt_iff_lt.mpr (by simp),
        compare_zeros n hb (List.cons_ne_nil _ _)]
  | cons x a ih =>
    obtain ⟨n, rfl⟩ : ∃ m, n = m + 1 := ⟨n - 1, by simp at ha; omega⟩
    rcases b with _ | ⟨y, b⟩
    · have hzeros := congrArg Ordering.swap (compare_zeros (n + 1) ha (List.cons_ne_nil x a))
      rw [Ordering.swap_then, compareBytes_swap] at hzeros
      rw [compareBytes_cons_nil, compare_gt_iff_gt.mpr (by simp)]
      exact hzeros.symm
    · rw [pad_cons, pad_cons, compareBytes_cons_cons, compareBytes_cons_cons, Ordering.then_assoc,
        ih (by simpa using ha) (by simpa using hb)]
      simp only [List.length_cons, Nat.compare_eq_ite_lt, Nat.add_lt_add_iff_right]

/-- A value that goes on beyond the padded length of another one. -/
theorem compare_pad_append {n : ℕ} {a b s : List UInt8} (ha : a.length = n) (hb : b.length ≤ n)
    (hs : s ≠ []) : compareBytes (a ++ s) b = (compareBytes a (pad n b)).then .gt := by
  induction a generalizing n b with
  | nil =>
    obtain rfl : n = 0 := ha.symm
    obtain rfl := List.length_eq_zero_iff.mp (Nat.le_zero.mp hb)
    obtain ⟨x, s, rfl⟩ := List.exists_cons_of_ne_nil hs
    simp [pad]
  | cons x a ih =>
    obtain ⟨n, rfl⟩ : ∃ m, n = m + 1 := ⟨n - 1, by simp at ha; omega⟩
    have ha' : a.length = n := by simpa using ha
    rcases b with _ | ⟨y, b⟩
    · have hzeros := congrArg Ordering.swap (compare_zeros (n + 1) ha.le (List.cons_ne_nil x a))
      rw [Ordering.swap_then, compareBytes_swap] at hzeros
      rw [List.cons_append, compareBytes_cons_nil]
      have hself : pad (n + 1) (x :: a) = x :: a := by simp [pad, ha]
      rw [hself] at hzeros
      exact hzeros.symm
    · rw [List.cons_append, pad_cons, compareBytes_cons_cons, compareBytes_cons_cons,
        Ordering.then_assoc, ih ha' (by simpa using hb)]

/-- The suffix of a last chunk carries the number of its bytes. -/
theorem compare_suffix (direction : IndexDirection) {m n : ℕ} (hm : m ≤ chunkBytes)
    (hn : n ≤ chunkBytes) :
    compare (UInt8.ofNat m ^^^ direction.mask) (UInt8.ofNat n ^^^ direction.mask) =
      direction.apply (compare m n) := by
  have hcompare : compare (UInt8.ofNat m) (UInt8.ofNat n) = compare m n := by
    rw [UInt8.compare_eq_compare_toNat, UInt8.toNat_ofNat_of_lt' (lt_of_le_of_lt hm (by decide)),
      UInt8.toNat_ofNat_of_lt' (lt_of_le_of_lt hn (by decide))]
  cases direction with
  | ascending => simp [IndexDirection.mask, IndexDirection.apply, hcompare]
  | descending =>
    rw [IndexDirection.mask, compare_complement, IndexDirection.apply, ← hcompare]
    rcases lt_trichotomy (UInt8.ofNat m) (UInt8.ofNat n) with h | h | h
    · rw [compare_gt_iff_gt.mpr h, compare_lt_iff_lt.mpr h]
      rfl
    · rw [h]
      simp
    · rw [compare_lt_iff_lt.mpr h, compare_gt_iff_gt.mpr h]
      rfl

/-- A chunk that is continued comes last in ascending and first in descending order, although its
suffix is never complemented. -/
theorem compare_continued (direction : IndexDirection) {n : ℕ} (h : n ≤ chunkBytes) :
    compare continued (UInt8.ofNat n ^^^ direction.mask) = direction.apply .gt := by
  unfold chunkBytes at h
  cases direction <;> interval_cases n <;> decide

/-- The last piece is padded, and followed by its length. -/
theorem chunks_last {direction : IndexDirection} {value : List UInt8}
    (h : value.length ≤ chunkBytes) :
    chunks direction.mask value = (pad chunkBytes value).map (· ^^^ direction.mask) ++
      [UInt8.ofNat value.length ^^^ direction.mask] := by
  rw [chunks_of_le h, pad, List.map_append, List.map_replicate, UInt8.zero_xor]

/-- A chunk that is continued against a last chunk. -/
theorem compare_chunks_of_lt_of_le (direction : IndexDirection) {a b : List UInt8}
    (ha : chunkBytes < a.length) (hb : b.length ≤ chunkBytes) :
    compareBytes (chunks direction.mask a) (chunks direction.mask b) =
      direction.apply (compareBytes a b) := by
  have hfront : (a.take chunkBytes).length = chunkBytes := by
    rw [List.length_take]
    omega
  have hrest : a.drop chunkBytes ≠ [] := by
    rw [ne_eq, List.drop_eq_nil_iff]
    omega
  have hvalue : compareBytes a b =
      (compareBytes (a.take chunkBytes) (pad chunkBytes b)).then .gt := by
    rw [← compare_pad_append hfront hb hrest, List.take_append_drop]
  rw [chunks_of_lt ha, chunks_last hb,
    compareBytes_append_of_length (by rw [List.length_map, List.length_map, hfront, length_pad hb]),
    compareBytes_directed_of_length direction (by rw [hfront, length_pad hb]),
    compareBytes_cons_cons, compare_continued direction hb, hvalue, IndexDirection.apply_then]
  cases direction <;> rfl

/-- Chunks compare as their values. -/
theorem compare_chunks (direction : IndexDirection) (a b : List UInt8) :
    compareBytes (chunks direction.mask a) (chunks direction.mask b) =
      direction.apply (compareBytes a b) := by
  induction hn : a.length using Nat.strong_induction_on generalizing a b with
  | _ n ih =>
    rcases Nat.lt_or_ge chunkBytes a.length with ha | ha <;>
      rcases Nat.lt_or_ge chunkBytes b.length with hb | hb
    · -- both go on: the first chunks, and then the rest
      have hfront : (a.take chunkBytes).length = (b.take chunkBytes).length := by
        rw [List.length_take, List.length_take]
        omega
      have hdrop : (a.drop chunkBytes).length < n := by
        rw [List.length_drop]
        unfold chunkBytes at ha ⊢
        omega
      have hvalue : compareBytes a b =
          (compareBytes (a.take chunkBytes) (b.take chunkBytes)).then
            (compareBytes (a.drop chunkBytes) (b.drop chunkBytes)) := by
        rw [← compareBytes_append_of_length hfront, List.take_append_drop, List.take_append_drop]
      rw [chunks_of_lt ha, chunks_of_lt hb,
        compareBytes_append_of_length (by rw [List.length_map, List.length_map, hfront]),
        compareBytes_directed_of_length direction hfront, compareBytes_cons_cons,
        compare_eq_iff_eq.mpr rfl, Ordering.eq_then, ih _ hdrop _ _ rfl, hvalue,
        IndexDirection.apply_then]
    · exact compare_chunks_of_lt_of_le direction ha hb
    · rw [← compareBytes_swap, compare_chunks_of_lt_of_le direction hb ha,
        ← IndexDirection.apply_swap, compareBytes_swap]
    · rw [chunks_last ha, chunks_last hb,
        compareBytes_append_of_length
          (by rw [List.length_map, List.length_map, length_pad ha, length_pad hb]),
        compareBytes_directed_of_length direction (by rw [length_pad ha, length_pad hb]),
        compareBytes_cons_cons, compare_suffix direction ha hb, compareBytes_self, Ordering.then_eq,
        compare_pad ha hb, IndexDirection.apply_then]

end Binary

/-! ## Text -/

namespace Text

/-- The two nibbles of every byte. -/
def unpack (bytes : List UInt8) : List UInt8 :=
  bytes.flatMap fun byte => [byte / 16, byte % 16]

@[simp]
theorem unpack_cons (byte : UInt8) (bytes : List UInt8) :
    unpack (byte :: bytes) = byte / 16 :: byte % 16 :: unpack bytes :=
  rfl

/-- Bytes compare as their halves do. -/
theorem compare_halves (x y : UInt8) :
    (compare (x / 16) (y / 16)).then (compare (x % 16) (y % 16)) = compare x y := by
  rw [UInt8.compare_eq_compare_toNat, UInt8.compare_eq_compare_toNat,
    UInt8.compare_eq_compare_toNat, UInt8.toNat_div, UInt8.toNat_div, UInt8.toNat_mod,
    UInt8.toNat_mod]
  simp only [UInt8.reduceToNat]
  rcases lt_trichotomy (x.toNat / 16) (y.toNat / 16) with h | h | h
  · have hlt : x.toNat < y.toNat := by omega
    rw [compare_lt_iff_lt.mpr h, compare_lt_iff_lt.mpr hlt, Ordering.lt_then]
  · rw [compare_eq_iff_eq.mpr h, Ordering.eq_then]
    simp only [Nat.compare_eq_ite_lt]
    split_ifs <;> first | rfl | omega
  · have hgt : y.toNat < x.toNat := by omega
    rw [compare_gt_iff_gt.mpr h, compare_gt_iff_gt.mpr hgt, Ordering.gt_then]

/-- Bytes compare as their nibbles. -/
theorem compare_unpack (a b : List UInt8) :
    compareBytes (unpack a) (unpack b) = compareBytes a b := by
  induction a generalizing b with
  | nil => cases b <;> simp [unpack]
  | cons x a ih =>
    cases b with
    | nil => simp [unpack]
    | cons y b =>
      rw [unpack_cons, unpack_cons, compareBytes_cons_cons, compareBytes_cons_cons,
        compareBytes_cons_cons, ← Ordering.then_assoc, compare_halves, ih]

theorem nibbles_halves {high low : UInt8} (hhigh : high < 16) (hlow : low < 16) :
    nibbles high low / 16 = high ∧ nibbles high low % 16 = low := by
  have hnat := toNat_nibbles hhigh hlow
  have hlow' : low.toNat < 16 := UInt8.lt_iff_toNat_lt.mp hlow
  constructor
  · rw [← UInt8.toNat_inj, UInt8.toNat_div, hnat]
    simp only [UInt8.reduceToNat]
    omega
  · rw [← UInt8.toNat_inj, UInt8.toNat_mod, hnat]
    simp only [UInt8.reduceToNat]
    omega

/-- Unpacking gives back the nibbles, with one more where their number is odd. -/
theorem unpack_packNibbles {list : List UInt8} (h : ∀ nibble ∈ list, nibble < 16) :
    unpack (packNibbles 0 list) = list ++ List.replicate (list.length % 2) 0 := by
  induction list using packNibbles.induct with
  | case1 => rfl
  | case2 high =>
    obtain ⟨hdiv, hmod⟩ := nibbles_halves (h high List.mem_cons_self) (by decide : (0 : UInt8) < 16)
    rw [packNibbles_one, unpack_cons, hdiv, hmod]
    rfl
  | case3 high low rest ih =>
    obtain ⟨hdiv, hmod⟩ := nibbles_halves (h high (by simp)) (h low (by simp))
    rw [packNibbles_two, unpack_cons, hdiv, hmod, ih fun nibble hmem => h nibble (by simp [hmem])]
    simp [Nat.add_assoc]

/-- Lists of secondary weights compare as their packed bytes. -/
theorem compare_packNibbles {s t : List UInt8} (hs : ∀ nibble ∈ s, IsWeight nibble)
    (ht : ∀ nibble ∈ t, IsWeight nibble) :
    compareBytes (packNibbles 0 (0 :: s ++ [0])) (packNibbles 0 (0 :: t ++ [0])) =
      compareBytes s t := by
  have hnibble : ∀ {list : List UInt8}, (∀ nibble ∈ list, IsWeight nibble) →
      ∀ nibble ∈ (0 : UInt8) :: list ++ [0], nibble < 16 := by
    intro list h nibble hmem
    rw [List.cons_append, List.mem_cons, List.mem_append, List.mem_singleton] at hmem
    rcases hmem with rfl | hmem | rfl
    · decide
    · exact (h nibble hmem).2
    · decide
  rw [← compare_unpack, unpack_packNibbles (hnibble hs), unpack_packNibbles (hnibble ht),
    List.cons_append, List.cons_append, List.cons_append, List.cons_append, compareBytes_cons_cons,
    compare_eq_iff_eq.mpr rfl, Ordering.eq_then, List.append_assoc, List.append_assoc,
    compareBytes_append_of_bound 2 (fun nibble hmem => (hs nibble hmem).1)
      (fun nibble hmem => (ht nibble hmem).1) ⟨0, rfl, by decide⟩ ⟨0, rfl, by decide⟩]
  rcases hst : compareBytes s t with _ | _ | _
  · rfl
  · -- lists of one length end alike
    rw [compareBytes_eq_iff.mp hst, compareBytes_self]
    rfl
  · rfl

/-- A neutral weight is left out where only neutral ones follow. -/
theorem trimNeutral_cons (x : UInt8) (s : List UInt8) :
    trimNeutral (x :: s) = if trimNeutral s = [] ∧ x = 2 then [] else x :: trimNeutral s := by
  unfold trimNeutral
  rw [List.reverse_cons, List.dropWhile_append]
  generalize s.reverse.dropWhile (fun nibble => decide (nibble = 2)) = kept
  cases kept with
  | nil => by_cases hx : x = 2 <;> simp [hx]
  | cons y kept => simp

/-- Neutral weights at the end of lists of one length do not change their order. -/
theorem compare_trimNeutral {s t : List UInt8} (hlength : s.length = t.length)
    (hs : ∀ nibble ∈ s, IsWeight nibble) (ht : ∀ nibble ∈ t, IsWeight nibble) :
    compareBytes (trimNeutral s) (trimNeutral t) = compareBytes s t := by
  induction s generalizing t with
  | nil =>
    obtain rfl := List.length_eq_zero_iff.mp hlength.symm
    rfl
  | cons x s ih =>
    obtain ⟨y, t, rfl⟩ := List.exists_cons_of_length_eq_add_one hlength.symm
    rw [List.forall_mem_cons] at hs ht
    rw [trimNeutral_cons, trimNeutral_cons, compareBytes_cons_cons,
      ← ih (by simpa using hlength) hs.2 ht.2]
    split_ifs with hx hy hy
    · simp [hx, hy]
    · -- what was dropped is neutral, so it is below what was kept
      rw [hx.1, hx.2]
      rcases lt_or_eq_of_le ht.1.1 with hlt | rfl
      · rw [compare_lt_iff_lt.mpr hlt]
        simp
      · obtain ⟨z, rest, hrest⟩ := List.exists_cons_of_ne_nil fun h => hy ⟨h, rfl⟩
        simp [hrest]
    · rw [hy.1, hy.2]
      rcases lt_or_eq_of_le hs.1.1 with hlt | rfl
      · rw [compare_gt_iff_gt.mpr hlt]
        simp
      · obtain ⟨z, rest, hrest⟩ := List.exists_cons_of_ne_nil fun h => hx ⟨h, rfl⟩
        simp [hrest]
    · rw [compareBytes_cons_cons]

/-- Text components compare by their primary weights, and then by their secondary weights, where
equal primary weights carry equally many of these. -/
theorem compare_component {primary primary' secondary secondary' : List UInt8}
    (hprimary : ∀ weight ∈ primary, 16 ≤ weight) (hprimary' : ∀ weight ∈ primary', 16 ≤ weight)
    (hsecondary : ∀ nibble ∈ secondary, IsWeight nibble)
    (hsecondary' : ∀ nibble ∈ secondary', IsWeight nibble)
    (hlength : primary = primary' → secondary.length = secondary'.length) :
    compareBytes (component 0 primary secondary) (component 0 primary' secondary') =
      (compareBytes primary primary').then (compareBytes secondary secondary') := by
  have hs : ∀ nibble ∈ trimNeutral secondary, IsWeight nibble :=
    fun nibble hmem => hsecondary nibble (mem_of_mem_trimNeutral hmem)
  have hs' : ∀ nibble ∈ trimNeutral secondary', IsWeight nibble :=
    fun nibble hmem => hsecondary' nibble (mem_of_mem_trimNeutral hmem)
  have hpacked := compare_packNibbles hs hs'
  obtain ⟨first, rest, hfirst, hlt⟩ := head_packNibbles hs
  obtain ⟨first', rest', hfirst', hlt'⟩ := head_packNibbles hs'
  simp only [component, UInt8.xor_zero, List.map_id', List.cons_append] at hpacked ⊢
  rw [compareBytes_cons_cons, compare_eq_iff_eq.mpr rfl, Ordering.eq_then,
    compareBytes_append_of_bound 16 hprimary hprimary' ⟨first, by rw [hfirst]; rfl, hlt⟩
      ⟨first', by rw [hfirst']; rfl, hlt'⟩, hpacked]
  rcases hcompare : compareBytes primary primary' with _ | _ | _
  · rfl
  · rw [compare_trimNeutral (hlength (compareBytes_eq_iff.mp hcompare)) hsecondary hsecondary']
  · rfl

end Text

/-! ## Numbers -/

/-- Flipping the sign adds half of the range. -/
theorem flipSign_beBytes {w n : ℕ} (h : n < 256 ^ (w + 1)) :
    flipSign (beBytes (w + 1) n) = beBytes (w + 1) ((n + 128 * 256 ^ w) % 256 ^ (w + 1)) := by
  have hpos : 0 < 256 ^ w := by positivity
  have hflip : ∀ i < 256, UInt8.ofNat i ^^^ 0x80 = UInt8.ofNat (i + 128) := by decide +kernel
  have htop : n / 256 ^ w < 256 := Nat.div_lt_of_lt_mul (by rwa [pow_succ] at h)
  rw [beBytes_mod, beBytes_succ, beBytes_succ, flipSign, hflip _ htop,
    Nat.add_mul_div_right _ _ hpos, ← beBytes_mod w (n + 128 * 256 ^ w), Nat.add_mul_mod_self_right,
    beBytes_mod]

/-- Flipping a clear top bit adds its value. -/
theorem xor_two_pow {k n : ℕ} (h : n < 2 ^ k) : n ^^^ 2 ^ k = n + 2 ^ k := by
  have hpos : 0 < 2 ^ k := by positivity
  have hdiv : (n ^^^ 2 ^ k) / 2 ^ k = 1 := by
    rw [Nat.xor_div_two_pow, Nat.div_eq_of_lt h, Nat.div_self hpos, Nat.zero_xor]
  have hmod : (n ^^^ 2 ^ k) % 2 ^ k = n := by
    rw [Nat.xor_mod_two_pow, Nat.mod_self, Nat.xor_zero, Nat.mod_eq_of_lt h]
  have heq := Nat.div_add_mod (n ^^^ 2 ^ k) (2 ^ k)
  rw [hdiv, hmod] at heq
  omega

namespace ScalarKeyType

/-- The ordered bits of a `Single`. -/
theorem toNat_orderedSingle (bits : UInt32) :
    ((if bits >>> 31 = 1 then ~~~bits else bits ^^^ 0x80000000).toNat : ℤ) =
      floatRank 31 bits.toNat + 2 ^ 31 := by
  have hbits : bits.toNat < 2 ^ 32 := bits.toNat_lt
  have hsign : bits >>> 31 = 1 ↔ 2 ^ 31 ≤ bits.toNat := by
    rw [← UInt32.toNat_inj, UInt32.toNat_shiftRight, Nat.shiftRight_eq_div_pow]
    simp only [UInt32.reduceToNat, Nat.reduceMod]
    omega
  unfold floatRank
  rcases Nat.lt_or_ge bits.toNat (2 ^ 31) with hpos | hneg
  · have hxor : (bits ^^^ 0x80000000).toNat = bits.toNat + 2 ^ 31 := by
      rw [UInt32.toNat_xor]
      exact xor_two_pow hpos
    rw [if_neg (hsign.not.mpr hpos.not_ge), if_pos hpos, hxor]
    push_cast
    rfl
  · rw [if_pos (hsign.mpr hneg), if_neg hneg.not_gt, UInt32.toNat_not, UInt32.size]
    omega

/-- The ordered bits of a `Double`. -/
theorem toNat_orderedDouble (bits : UInt64) :
    ((if bits >>> 63 = 1 then ~~~bits else bits ^^^ 0x8000000000000000).toNat : ℤ) =
      floatRank 63 bits.toNat + 2 ^ 63 := by
  have hbits : bits.toNat < 2 ^ 64 := bits.toNat_lt
  have hsign : bits >>> 63 = 1 ↔ 2 ^ 63 ≤ bits.toNat := by
    rw [← UInt64.toNat_inj, UInt64.toNat_shiftRight, Nat.shiftRight_eq_div_pow]
    simp only [UInt64.reduceToNat, Nat.reduceMod]
    omega
  unfold floatRank
  rcases Nat.lt_or_ge bits.toNat (2 ^ 63) with hpos | hneg
  · have hxor : (bits ^^^ 0x8000000000000000).toNat = bits.toNat + 2 ^ 63 := by
      rw [UInt64.toNat_xor]
      exact xor_two_pow hpos
    rw [if_neg (hsign.not.mpr hpos.not_ge), if_pos hpos, hxor]
    push_cast
    rfl
  · rw [if_pos (hsign.mpr hneg), if_neg hneg.not_gt, UInt64.toNat_not, UInt64.size]
    omega

/-- What is added to a number of a column before its bytes are written. -/
def bias : ScalarKeyType → ℤ
  | integer => 2 ^ 15
  | long | single => 2 ^ 31
  | currency | double | dateTime => 2 ^ 63
  | _ => 0

/-- A number is written as its distance from the smallest one. -/
def IsNumber (kind : ScalarKeyType) (value : RowValue) (bytes : List UInt8) : Prop :=
  ∃ n < 256 ^ kind.width, bytes = 0x7f :: beBytes kind.width n ∧
    kind.sortValue value = .number (n - kind.bias)

/-- A signed integer of some width, stored with its sign bit flipped. -/
theorem isNumber_signed {kind : ScalarKeyType} {value : RowValue} {int : ℤ} {w n : ℕ}
    (hwidth : kind.width = w + 1) (hbias : kind.bias = (128 * 256 ^ w : ℕ))
    (hlt : n < 256 ^ (w + 1))
    (hint : int = if 2 * n < 256 ^ (w + 1) then (n : ℤ) else n - (256 ^ (w + 1) : ℕ))
    (hsort : kind.sortValue value = .number int) :
    IsNumber kind value (0x7f :: flipSign (beBytes (w + 1) n)) := by
  have hhalf : 256 ^ (w + 1) = 2 * (128 * 256 ^ w) := by ring
  refine ⟨(n + 128 * 256 ^ w) % 256 ^ (w + 1), ?_, ?_, ?_⟩
  · rw [hwidth]
    exact Nat.mod_lt _ (by positivity)
  · rw [flipSign_beBytes hlt, hwidth]
  · rw [hhalf] at hlt hint
    rw [hsort, hbias, hint, hhalf, SortValue.number.injEq]
    generalize 128 * 256 ^ w = half at hlt
    rcases Nat.lt_or_ge n half with hpos | hneg
    · rw [if_pos (by omega), Nat.mod_eq_of_lt (by omega)]
      omega
    · rw [if_neg (by omega), Nat.mod_eq_sub_mod (by omega), Nat.mod_eq_of_lt (by omega)]
      omega

/-- The component of an Integer. -/
theorem isNumber_integer (value : Int16) :
    IsNumber integer (.integer value) (0x7f :: flipSign (beBytes 2 value.toUInt16.toNat)) :=
  isNumber_signed rfl rfl value.toUInt16.toNat_lt (BitVec.toInt_eq_toNat_cond value.toBitVec) rfl

/-- The component of a Long. -/
theorem isNumber_long (value : Int32) :
    IsNumber long (.long value) (0x7f :: flipSign (beBytes 4 value.toUInt32.toNat)) :=
  isNumber_signed rfl rfl value.toUInt32.toNat_lt (BitVec.toInt_eq_toNat_cond value.toBitVec) rfl

/-- The component of a Currency. -/
theorem isNumber_currency (scaled : Int64) :
    IsNumber currency (.currency scaled) (0x7f :: flipSign (beBytes 8 scaled.toUInt64.toNat)) :=
  isNumber_signed rfl rfl scaled.toUInt64.toNat_lt (BitVec.toInt_eq_toNat_cond scaled.toBitVec) rfl

/-- The component of a Single: negative numbers are complemented. -/
theorem isNumber_single (bits : UInt32) :
    IsNumber single (.single bits) (0x7f ::
      beBytes 4 (if bits >>> 31 = 1 then ~~~bits else bits ^^^ 0x80000000).toNat) := by
  refine ⟨_, UInt32.toNat_lt _, rfl, ?_⟩
  change SortValue.number (floatRank 31 bits.toNat) = _
  rw [toNat_orderedSingle, bias, add_sub_cancel_right]

/-- The component of a Double: negative numbers are complemented. -/
theorem isNumber_double (bits : UInt64) :
    IsNumber double (.double bits) (0x7f ::
      beBytes 8 (if bits >>> 63 = 1 then ~~~bits else bits ^^^ 0x8000000000000000).toNat) := by
  refine ⟨_, UInt64.toNat_lt _, rfl, ?_⟩
  change SortValue.number (floatRank 63 bits.toNat) = _
  rw [toNat_orderedDouble, bias, add_sub_cancel_right]

/-- A present component of a column of numbers. -/
theorem plain_number {kind : ScalarKeyType} (hkind : kind ≠ boolean) {value : RowValue}
    {bytes : List UInt8} (h : kind.plain value = some bytes) :
    (bytes = [0] ∧ kind.sortValue value = .null) ∨ kind.IsNumber value bytes := by
  unfold plain at h
  split at h
  · exact absurd rfl hkind
  · rename_i hnull
    obtain rfl := Option.some.inj h
    refine .inl ⟨rfl, ?_⟩
    cases kind <;> first | rfl | exact absurd rfl hkind
  · exact absurd rfl hkind
  · rename_i value
    obtain rfl := Option.some.inj h
    refine .inr ⟨value.toNat, value.toNat_lt, ?_, congrArg SortValue.number (sub_zero _).symm⟩
    simp [beBytes, leBytes, width]
  · obtain rfl := Option.some.inj h
    exact .inr (isNumber_integer _)
  · obtain rfl := Option.some.inj h
    exact .inr (isNumber_long _)
  · obtain rfl := Option.some.inj h
    exact .inr (isNumber_currency _)
  · split at h
    · obtain rfl := Option.some.inj h
      exact .inr (isNumber_single _)
    · cases h
  · split at h
    · obtain rfl := Option.some.inj h
      exact .inr (isNumber_double _)
    · cases h
  · split at h
    · obtain rfl := Option.some.inj h
      exact .inr (isNumber_double _)
    · cases h
  · cases h

/-! ## All columns -/

/-- A Boolean column writes one byte, and False for a null. -/
theorem plain_boolean {value : RowValue} {bytes : List UInt8}
    (h : boolean.plain value = some bytes) :
    (bytes = [0x7f, 0xff] ∧ boolean.sortValue value = .number 0) ∨
      (bytes = [0x7f, 0] ∧ boolean.sortValue value = .number (-1)) := by
  cases value with
  | null => exact .inl ⟨(Option.some.inj h).symm, rfl⟩
  | boolean value =>
    cases value with
    | false => exact .inl ⟨(Option.some.inj h).symm, rfl⟩
    | true => exact .inr ⟨(Option.some.inj h).symm, rfl⟩
  | _ => cases h

/-- The undirected components of numbers compare as the numbers. -/
theorem compare_plain {kind : ScalarKeyType} {v w : RowValue} {a b : List UInt8}
    (hv : kind.plain v = some a) (hw : kind.plain w = some b) :
    compareBytes a b = (kind.sortValue v).compare (kind.sortValue w) := by
  by_cases hkind : kind = boolean
  · subst hkind
    rcases plain_boolean hv with ⟨rfl, hsort⟩ | ⟨rfl, hsort⟩ <;>
      rcases plain_boolean hw with ⟨rfl, hsort'⟩ | ⟨rfl, hsort'⟩ <;> rw [hsort, hsort'] <;> decide
  · rcases plain_number hkind hv with ⟨rfl, hsort⟩ | ⟨m, hm, rfl, hsort⟩ <;>
      rcases plain_number hkind hw with ⟨rfl, hsort'⟩ | ⟨n, hn, rfl, hsort'⟩ <;>
      rw [hsort, hsort']
    · rfl
    · rfl
    · rfl
    · rw [compareBytes_cons_cons, compare_eq_iff_eq.mpr rfl, Ordering.eq_then,
        compareBytes_beBytes hm hn, SortValue.compare]
      rcases lt_trichotomy m n with h | rfl | h
      · rw [compare_lt_iff_lt.mpr h, compare_lt_iff_lt.mpr (by omega)]
      · simp
      · rw [compare_gt_iff_gt.mpr h, compare_gt_iff_gt.mpr (by omega)]

/-- The null marker comes before anything present, in either direction. -/
theorem compare_marker (direction : IndexDirection) (rest : List UInt8) :
    compareBytes [direction.mask] ((0x7f ^^^ direction.mask) :: rest) = direction.apply .lt := by
  have hmarker : compare direction.mask (0x7f ^^^ direction.mask) = direction.apply .lt := by
    cases direction <;> decide
  rw [compareBytes_cons_cons, hmarker]
  cases direction <;> rfl

/-- A null is its marker, in all columns but Boolean ones. -/
theorem encode_null {kind : ScalarKeyType} {direction : IndexDirection} {component : List UInt8}
    (h : kind.encode .null direction = some component) (hkind : kind ≠ boolean) :
    component = [direction.mask] := by
  have hmarker : kind.encode .null direction = some [0 ^^^ direction.mask] := by
    cases kind <;> first | rfl | exact absurd rfl hkind
  rw [hmarker, Option.some.injEq] at h
  rw [← h, UInt8.zero_xor]

/-! ### Binary data -/

/-- A component of bytes: the null marker, or chunks. -/
def IsBytes (mask : UInt8) (value : SortValue) (component : List UInt8) : Prop :=
  (value = .null ∧ component = [mask]) ∨
    ∃ bytes, value = .bytes bytes ∧ component = (0x7f ^^^ mask) :: Binary.chunks mask bytes

/-- Binary components compare as their values do. -/
theorem compare_isBytes {direction : IndexDirection} {s t : SortValue} {a b : List UInt8}
    (ha : IsBytes direction.mask s a) (hb : IsBytes direction.mask t b) :
    compareBytes a b = direction.apply (s.compare t) := by
  rcases ha with ⟨rfl, rfl⟩ | ⟨v, rfl, rfl⟩ <;> rcases hb with ⟨rfl, rfl⟩ | ⟨w, rfl, rfl⟩
  · rw [compareBytes_self, SortValue.compare, IndexDirection.apply_eq_iff.mpr rfl]
  · exact compare_marker direction _
  · rw [← compareBytes_swap, compare_marker, ← IndexDirection.apply_swap]
    rfl
  · rw [compareBytes_cons_cons, compare_eq_iff_eq.mpr rfl, Ordering.eq_then, Binary.compare_chunks]
    rfl

/-- The component of a binary value. -/
theorem isBytes_binary {maximum : UInt8} {direction : IndexDirection} {value : RowValue}
    {component : List UInt8} (h : (binary maximum).encode value direction = some component) :
    IsBytes direction.mask ((binary maximum).sortValue value) component := by
  cases value with
  | null => exact .inl ⟨rfl, encode_null h nofun⟩
  | binary bytes =>
    simp only [encode, Binary.encode] at h
    rcases bytes with _ | ⟨first, rest⟩
    · exact .inl ⟨rfl, by simpa using h.symm⟩
    · split at h
      · cases h
      · exact .inr ⟨first :: rest, rfl, (Option.some.inj h).symm⟩
  | _ => cases h

/-- The component of a GUID. -/
theorem isBytes_guid {direction : IndexDirection} {value : RowValue} {component : List UInt8}
    (h : guid.encode value direction = some component) :
    IsBytes direction.mask (guid.sortValue value) component := by
  cases value with
  | null => exact .inl ⟨rfl, encode_null h nofun⟩
  | guid bytes =>
    simp only [encode, Binary.encode, Vector.length_toList, lt_irrefl, if_false] at h
    split at h
    · rename_i hempty
      have hlength := congrArg List.length (List.isEmpty_iff.mp hempty)
      simp at hlength
    · exact .inr ⟨bytes.toList, rfl, (Option.some.inj h).symm⟩
  | _ => cases h

/-! ### Text -/

/-- The component of a text is made of the weights of its units. -/
theorem encode_eq_component {value component : List UInt8} {maximum : UInt8}
    {direction : IndexDirection} {order : SortOrder}
    (h : LocaleText.encode value maximum direction order = some component) :
    component = Text.component direction.mask (LocaleText.sortWeights order value).1
      (LocaleText.sortWeights order value).2 := by
  unfold LocaleText.encode at h
  split at h
  · rename_i hgeneral
    subst hgeneral
    unfold Text.encode at h
    split at h
    · cases h
    · dsimp only at h
      split at h
      · cases h
      · exact (Option.some.inj h).symm
  · split at h
    · cases h
    · simp only [Option.bind_eq_bind, Option.bind_eq_some_iff] at h
      obtain ⟨tables, htables, page, -, h⟩ := h
      split at h
      · cases h
      · rw [LocaleText.sortWeights, htables]
        exact (Option.some.inj h).symm

/-- The weights of a text are told apart by their size. -/
theorem sortWeights_isWeight (order : SortOrder) (value : List UInt8) :
    (∀ weight ∈ (LocaleText.sortWeights order value).1, 16 ≤ weight) ∧
      ∀ nibble ∈ (LocaleText.sortWeights order value).2, Text.IsWeight nibble := by
  unfold LocaleText.sortWeights
  rcases htables : LocaleText.weights order with _ | tables
  · refine ⟨fun weight hmem => ?_, fun nibble hmem => ?_⟩
    · obtain ⟨byte, -, hweight⟩ := List.mem_flatMap.mp hmem
      exact Text.primary_ge hweight
    · obtain ⟨byte, -, hnibble⟩ := List.mem_flatMap.mp hmem
      obtain ⟨-, -, rfl⟩ := List.mem_map.mp hnibble
      exact Text.accent_isWeight byte
  · have hunits := LocaleText.unitSeparates_units order
      (LocaleText.separates_of_weights htables) (Text.trimSpaces value)
    refine ⟨fun weight hmem => ?_, fun nibble hmem => ?_⟩
    · obtain ⟨unit, hunit, hweight⟩ := List.mem_flatMap.mp hmem
      exact (hunits unit hunit weight hweight).1
    · obtain ⟨unit, hunit, hnibble⟩ := List.mem_flatMap.mp hmem
      obtain ⟨weight, hweight, rfl⟩ := List.mem_map.mp hnibble
      rw [List.mem_filter] at hweight
      exact (hunits unit hunit weight hweight.1).2 hweight.2

/-- Secondary weights are carried by primary ones, so these tell how many there are. -/
theorem length_sortWeights (order : SortOrder) (v w : List UInt8)
    (h : (LocaleText.sortWeights order v).1 = (LocaleText.sortWeights order w).1) :
    (LocaleText.sortWeights order v).2.length = (LocaleText.sortWeights order w).2.length := by
  have hcount : ∃ carries : UInt8 → Bool, ∀ value : List UInt8,
      (LocaleText.sortWeights order value).2.length =
        ((LocaleText.sortWeights order value).1.filter carries).length := by
    unfold LocaleText.sortWeights
    rcases LocaleText.weights order with _ | tables
    · exact ⟨Text.accentedPrimary, fun value => by
        simp [List.filter_flatMap, List.length_flatMap]⟩
    · exact ⟨LocaleText.accented tables, fun value => by
        simp [List.filter_flatMap, List.length_flatMap]⟩
  obtain ⟨carries, hcarries⟩ := hcount
  rw [hcarries, hcarries, h]

/-- Components of texts compare as the texts do in their order. -/
theorem compare_text {order : SortOrder} {maximum : UInt8} {direction : IndexDirection}
    {v w : List UInt8} {a b : List UInt8}
    (hv : LocaleText.encode v maximum direction order = some a)
    (hw : LocaleText.encode w maximum direction order = some b) :
    compareBytes a b = direction.apply (SortValue.compare
      ((text maximum order).sortValue (.text v)) ((text maximum order).sortValue (.text w))) := by
  obtain ⟨hprimary, hsecondary⟩ := sortWeights_isWeight order v
  obtain ⟨hprimary', hsecondary'⟩ := sortWeights_isWeight order w
  rw [encode_eq_component hv, encode_eq_component hw, Text.component_eq_map,
    Text.component_eq_map direction.mask (LocaleText.sortWeights order w).1,
    compareBytes_directed direction
      (Text.component_prefix hprimary hprimary' hsecondary hsecondary')
      (fun h => (Text.component_prefix hprimary' hprimary hsecondary' hsecondary h).symm),
    Text.compare_component hprimary hprimary' hsecondary hsecondary' (length_sortWeights order v w)]
  rfl

/-- Text columns, with the null marker. -/
theorem compare_encode_text {maximum : UInt8} {order : SortOrder} {direction : IndexDirection}
    {v w : RowValue} {a b : List UInt8} (hv : (text maximum order).encode v direction = some a)
    (hw : (text maximum order).encode w direction = some b) :
    compareBytes a b = direction.apply (((text maximum order).sortValue v).compare
      ((text maximum order).sortValue w)) := by
  have hcases : ∀ {value component},
      (text maximum order).encode value direction = some component →
      ((text maximum order).sortValue value = .null ∧ component = [direction.mask]) ∨
        ∃ bytes, value = .text bytes ∧
          LocaleText.encode bytes maximum direction order = some component := by
    intro value component h
    cases value with
    | null => exact .inl ⟨rfl, encode_null h nofun⟩
    | text bytes => exact .inr ⟨bytes, rfl, h⟩
    | _ => cases h
  rcases hcases hv with ⟨hsort, rfl⟩ | ⟨bytes, rfl, hv⟩ <;>
    rcases hcases hw with ⟨hsort', rfl⟩ | ⟨bytes', rfl, hw⟩
  · rw [hsort, hsort', compareBytes_self, SortValue.compare, IndexDirection.apply_eq_iff.mpr rfl]
  · rw [hsort, encode_eq_component hw]
    exact compare_marker direction _
  · rw [hsort', encode_eq_component hv, ← compareBytes_swap]
    exact (congrArg Ordering.swap (compare_marker direction _)).trans
      (IndexDirection.apply_swap direction .lt).symm
  · exact compare_text hv hw

/-- No component of a number is the front of another one. -/
theorem plain_front {kind : ScalarKeyType} {v w : RowValue} {a b : List UInt8}
    (hv : kind.plain v = some a) (hw : kind.plain w = some b) (h : a <+: b) : a = b := by
  rcases plain_cases hv with rfl | ⟨rest, rfl, hlength⟩ <;>
    rcases plain_cases hw with rfl | ⟨rest', rfl, hlength'⟩
  · rfl
  · exact absurd (List.cons_prefix_cons.mp h).1 (by decide)
  · exact absurd (List.cons_prefix_cons.mp h).1 (by decide)
  · exact h.eq_of_length (by rw [List.length_cons, List.length_cons, hlength, hlength'])

/-- Columns of numbers, in either direction. -/
theorem compare_encode_plain {kind : ScalarKeyType} {direction : IndexDirection} {v w : RowValue}
    {a b : List UInt8} (hv : (kind.plain v).map (List.map (· ^^^ direction.mask)) = some a)
    (hw : (kind.plain w).map (List.map (· ^^^ direction.mask)) = some b) :
    compareBytes a b = direction.apply ((kind.sortValue v).compare (kind.sortValue w)) := by
  obtain ⟨bytes, hplain, rfl⟩ := Option.map_eq_some_iff.mp hv
  obtain ⟨bytes', hplain', rfl⟩ := Option.map_eq_some_iff.mp hw
  rw [compareBytes_directed direction (plain_front hplain hplain')
    (fun h => (plain_front hplain' hplain h).symm), compare_plain hplain hplain']

/-- Components compare as the values they were encoded from, in their direction. -/
theorem compare_encode {kind : ScalarKeyType} {direction : IndexDirection} {v w : RowValue}
    {a b : List UInt8} (hv : kind.encode v direction = some a)
    (hw : kind.encode w direction = some b) :
    compareBytes a b = direction.apply ((kind.sortValue v).compare (kind.sortValue w)) := by
  cases kind with
  | binary maximum => exact compare_isBytes (isBytes_binary hv) (isBytes_binary hw)
  | text maximum order => exact compare_encode_text hv hw
  | guid => exact compare_isBytes (isBytes_guid hv) (isBytes_guid hw)
  | _ => exact compare_encode_plain hv hw

end ScalarKeyType

end Jet3
