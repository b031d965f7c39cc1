import Jet3.Index.Key.GeneralWeights
import Jet3.Index.Key.Scalar
import Jet3.Library.PrefixCode
import Mathlib.Data.List.Induction
import Mathlib.Tactic.IntervalCases

/-!
# Key components form prefix codes

The components a column can encode are told apart by what they begin with: fixed widths, the suffix
of the last chunk, or the zero nibble that ends a text.
-/

namespace Jet3

open PrefixCode

/-! ## Masks -/

/-- A descending component is the complement of an ascending one. -/
theorem mask_cases (direction : IndexDirection) : direction.mask = 0 ∨ direction.mask = 0xff := by
  cases direction
  · exact .inl rfl
  · exact .inr rfl

theorem xor_involutive (mask : UInt8) : Function.Involutive (· ^^^ mask) := by
  intro byte
  show byte ^^^ mask ^^^ mask = byte
  rw [UInt8.xor_assoc, UInt8.xor_self, UInt8.xor_zero]

/-! ## Binary data -/

namespace Binary

/-- A piece that is followed by another one. -/
theorem chunks_of_lt {mask : UInt8} {value : List UInt8} (h : chunkBytes < value.length) :
    chunks mask value = (value.take chunkBytes).map (· ^^^ mask) ++
      continued :: chunks mask (value.drop chunkBytes) := by
  match value, h with
  | _ :: _ :: _ :: _ :: _ :: _ :: _ :: _ :: _ :: _, _ => rfl

/-- The last piece. -/
theorem chunks_of_le {mask : UInt8} {value : List UInt8} (h : value.length ≤ chunkBytes) :
    chunks mask value = (value.map (· ^^^ mask) ++
      List.replicate (chunkBytes - value.length) mask) ++ [UInt8.ofNat value.length ^^^ mask] := by
  unfold chunks
  split
  · simp only [List.length_cons, chunkBytes] at h
    omega
  · rfl

/-- The suffix of a last chunk is not the suffix of a chunk that is continued. -/
theorem continued_ne_suffix {mask : UInt8} (hmask : mask = 0 ∨ mask = 0xff) {n : ℕ}
    (h : n ≤ chunkBytes) : continued ≠ UInt8.ofNat n ^^^ mask := by
  unfold chunkBytes at h
  rcases hmask with rfl | rfl <;> interval_cases n <;> decide

/-- No sequence of pieces is the front of another one. -/
theorem chunks_prefix {mask : UInt8} (hmask : mask = 0 ∨ mask = 0xff) {a b : List UInt8}
    (h : chunks mask a <+: chunks mask b) : chunks mask a = chunks mask b := by
  induction hn : a.length using Nat.strong_induction_on generalizing a b with
  | _ n ih =>
    rcases Nat.lt_or_ge chunkBytes a.length with ha | ha <;>
      rcases Nat.lt_or_ge chunkBytes b.length with hb | hb
    · rw [chunks_of_lt ha, chunks_of_lt hb] at h ⊢
      obtain ⟨hfront, hrest⟩ := append_prefix_append_of_length (by simp; omega) h
      have hdrop : (a.drop chunkBytes).length < n := by
        rw [List.length_drop]
        unfold chunkBytes at ha ⊢
        omega
      rw [hfront, ih _ hdrop (List.cons_prefix_cons.mp hrest).2 rfl]
    · rw [chunks_of_lt ha, chunks_of_le hb] at h
      obtain ⟨-, hrest⟩ := append_prefix_append_of_length (by simp; omega) h
      exact absurd (List.cons_prefix_cons.mp hrest).1 (continued_ne_suffix hmask hb)
    · rw [chunks_of_le ha, chunks_of_lt hb] at h
      obtain ⟨-, hrest⟩ := append_prefix_append_of_length (by simp; omega) h
      exact absurd (List.cons_prefix_cons.mp hrest).1.symm (continued_ne_suffix hmask ha)
    · refine h.eq_of_length ?_
      rw [chunks_of_le ha, chunks_of_le hb]
      simp
      omega

end Binary

/-! ## Text -/

namespace Text

/-- Nibbles are complemented with their bytes. -/
theorem packNibbles_eq_map (mask : UInt8) (nibbles : List UInt8) :
    packNibbles mask nibbles = (packNibbles 0 nibbles).map (· ^^^ mask) := by
  induction nibbles using packNibbles.induct with
  | case1 => rfl
  | case2 high => simp [packNibbles, UInt8.xor_comm]
  | case3 high low rest ih =>
    rw [packNibbles, packNibbles, List.map_cons, ih, UInt8.zero_xor, UInt8.xor_assoc,
      UInt8.xor_comm mask]

/-- A text is complemented byte by byte. -/
theorem component_eq_map (mask : UInt8) (primary secondary : List UInt8) :
    component mask primary secondary = (component 0 primary secondary).map (· ^^^ mask) := by
  unfold component
  rw [packNibbles_eq_map mask]
  simp

/-- A byte of two nibbles. -/
def nibbles (high low : UInt8) : UInt8 := (high <<< 4) ^^^ low

theorem packNibbles_one (high : UInt8) : packNibbles 0 [high] = [nibbles high 0] := by
  simp [packNibbles, nibbles]

theorem packNibbles_two (high low : UInt8) (rest : List UInt8) :
    packNibbles 0 (high :: low :: rest) = nibbles high low :: packNibbles 0 rest := by
  simp [packNibbles, nibbles]

theorem toNat_nibbles {high low : UInt8} (hhigh : high < 16) (hlow : low < 16) :
    (nibbles high low).toNat = 16 * high.toNat + low.toNat := by
  have hall : ∀ i < 16, ∀ j < 16,
      (nibbles (UInt8.ofNat i) (UInt8.ofNat j)).toNat = 16 * i + j := by decide
  have h := hall high.toNat (UInt8.lt_iff_toNat_lt.mp hhigh) low.toNat
    (UInt8.lt_iff_toNat_lt.mp hlow)
  rwa [UInt8.ofNat_toNat, UInt8.ofNat_toNat] at h

/-- A byte has its two halves. -/
theorem nibbles_inj {high high' low low' : UInt8} (hhigh : high < 16) (hhigh' : high' < 16)
    (hlow : low < 16) (hlow' : low' < 16) (h : nibbles high low = nibbles high' low') :
    high = high' ∧ low = low' := by
  have hnat := congrArg UInt8.toNat h
  rw [toNat_nibbles hhigh hlow, toNat_nibbles hhigh' hlow'] at hnat
  rw [UInt8.lt_iff_toNat_lt] at hlow hlow'
  simp only [UInt8.reduceToNat] at hlow hlow'
  exact ⟨UInt8.toNat_inj.mp (by omega), UInt8.toNat_inj.mp (by omega)⟩

/-- A secondary weight: a nibble no less than the neutral one, so that it ends nothing. -/
def IsWeight (nibble : UInt8) : Prop := 2 ≤ nibble ∧ nibble < 16

theorem IsWeight.ne_zero {nibble : UInt8} (h : IsWeight nibble) : nibble ≠ 0 := by
  rintro rfl
  exact absurd h.1 (by decide)

/-- The zero nibble that ends a list of nonzero ones tells packed lists apart. -/
theorem packNibbles_prefix {x y : UInt8} {s t : List UInt8} (hx : x < 16) (hy : y < 16)
    (hs : ∀ nibble ∈ s, IsWeight nibble) (ht : ∀ nibble ∈ t, IsWeight nibble)
    (h : packNibbles 0 (x :: (s ++ [0])) <+: packNibbles 0 (y :: (t ++ [0]))) : x = y ∧ s = t := by
  have hzero : (0 : UInt8) < 16 := by decide
  -- the first low nibbles agree, so both lists go on or both end
  induction s using List.twoStepInduction generalizing x y t with
  | nil =>
    rw [List.nil_append, packNibbles_two] at h
    rcases t with _ | ⟨t1, t⟩
    · rw [List.nil_append, packNibbles_two] at h
      exact ⟨(nibbles_inj hx hy hzero hzero (List.cons_prefix_cons.mp h).1).1, rfl⟩
    · rw [List.cons_append, packNibbles_two] at h
      have ht1 := ht t1 List.mem_cons_self
      exact absurd (nibbles_inj hx hy hzero ht1.2 (List.cons_prefix_cons.mp h).1).2.symm ht1.ne_zero
  | singleton s1 =>
    have hs1 := hs s1 (List.mem_singleton_self s1)
    rw [List.singleton_append, packNibbles_two, packNibbles_one] at h
    rcases t with _ | ⟨t1, _ | ⟨t2, t⟩⟩
    · rw [List.nil_append, packNibbles_two] at h
      exact absurd (nibbles_inj hx hy hs1.2 hzero (List.cons_prefix_cons.mp h).1).2 hs1.ne_zero
    · rw [List.singleton_append, packNibbles_two] at h
      obtain ⟨rfl, rfl⟩ := nibbles_inj hx hy hs1.2 (ht t1 (List.mem_singleton_self t1)).2
        (List.cons_prefix_cons.mp h).1
      exact ⟨rfl, rfl⟩
    · rw [List.cons_append, packNibbles_two] at h
      obtain ⟨-, hrest⟩ := List.cons_prefix_cons.mp h
      have ht2 := ht t2 (by simp)
      rcases t with _ | ⟨t3, t⟩
      · rw [List.singleton_append, packNibbles_two] at hrest
        exact absurd (nibbles_inj hzero ht2.2 hzero hzero
          (List.cons_prefix_cons.mp hrest).1).1.symm ht2.ne_zero
      · rw [List.cons_append, List.cons_append, packNibbles_two] at hrest
        exact absurd (nibbles_inj hzero ht2.2 hzero (ht t3 (by simp)).2
          (List.cons_prefix_cons.mp hrest).1).1.symm ht2.ne_zero
  | cons_cons s1 s2 s ih =>
    have hs1 := hs s1 (by simp)
    have hs2 := hs s2 (by simp)
    rw [List.cons_append, packNibbles_two, List.cons_append] at h
    rcases t with _ | ⟨t1, _ | ⟨t2, t⟩⟩
    · rw [List.nil_append, packNibbles_two] at h
      exact absurd (nibbles_inj hx hy hs1.2 hzero (List.cons_prefix_cons.mp h).1).2 hs1.ne_zero
    · rw [List.singleton_append, packNibbles_two, packNibbles_one] at h
      obtain ⟨-, hrest⟩ := List.cons_prefix_cons.mp h
      rcases s with _ | ⟨s3, s⟩
      · rw [List.nil_append, packNibbles_two] at hrest
        exact absurd (nibbles_inj hs2.2 hzero hzero hzero
          (List.cons_prefix_cons.mp hrest).1).1 hs2.ne_zero
      · rw [List.cons_append, packNibbles_two] at hrest
        exact absurd (nibbles_inj hs2.2 hzero (hs s3 (by simp)).2 hzero
          (List.cons_prefix_cons.mp hrest).1).1 hs2.ne_zero
    · rw [List.cons_append, packNibbles_two, List.cons_append] at h
      obtain ⟨hfirst, hrest⟩ := List.cons_prefix_cons.mp h
      obtain ⟨rfl, rfl⟩ := nibbles_inj hx hy hs1.2 (ht t1 (by simp)).2 hfirst
      obtain ⟨rfl, rfl⟩ := ih hs2.2 (ht t2 (by simp)).2
        (fun nibble hmem => hs nibble (by simp [hmem]))
        (fun nibble hmem => ht nibble (by simp [hmem])) hrest
      exact ⟨rfl, rfl⟩

/-- Leaving out weights adds none. -/
theorem mem_of_mem_trimNeutral {secondary : List UInt8} {nibble : UInt8}
    (h : nibble ∈ trimNeutral secondary) : nibble ∈ secondary := by
  rw [trimNeutral, List.mem_reverse] at h
  exact List.mem_reverse.mp ((List.dropWhile_sublist _).mem h)

/-- The first packed byte is no primary weight. -/
theorem head_packNibbles {secondary : List UInt8}
    (hsecondary : ∀ nibble ∈ secondary, IsWeight nibble) :
    ∃ first rest, packNibbles 0 (0 :: (secondary ++ [0])) = first :: rest ∧ first < 16 := by
  rcases secondary with _ | ⟨nibble, secondary⟩
  · exact ⟨nibbles 0 0, _, packNibbles_two .., by decide⟩
  · refine ⟨nibbles 0 nibble, _, packNibbles_two .., ?_⟩
    have hnibble := (hsecondary nibble List.mem_cons_self).2
    rw [UInt8.lt_iff_toNat_lt, toNat_nibbles (by decide) hnibble]
    simpa using UInt8.lt_iff_toNat_lt.mp hnibble

/-- Text components are told apart. -/
theorem component_prefix {mask : UInt8} {primary primary' secondary secondary' : List UInt8}
    (hprimary : ∀ weight ∈ primary, 16 ≤ weight) (hprimary' : ∀ weight ∈ primary', 16 ≤ weight)
    (hsecondary : ∀ nibble ∈ secondary, IsWeight nibble)
    (hsecondary' : ∀ nibble ∈ secondary', IsWeight nibble)
    (h : component mask primary secondary <+: component mask primary' secondary') :
    component mask primary secondary = component mask primary' secondary' := by
  rw [component_eq_map mask, component_eq_map mask primary',
    map_prefix_map_iff (xor_involutive mask)] at h
  rw [component_eq_map mask, component_eq_map mask primary']
  congr 1
  have hs : ∀ nibble ∈ trimNeutral secondary, IsWeight nibble :=
    fun nibble hmem => hsecondary nibble (mem_of_mem_trimNeutral hmem)
  have hs' : ∀ nibble ∈ trimNeutral secondary', IsWeight nibble :=
    fun nibble hmem => hsecondary' nibble (mem_of_mem_trimNeutral hmem)
  have hmarker : (16 : UInt8) ≤ 0x7f ^^^ 0 := by decide
  simp only [component, UInt8.xor_zero, List.map_id', List.cons_append] at h ⊢
  obtain ⟨first, rest, hfirst, hlt⟩ := head_packNibbles hs
  obtain ⟨first', rest', hfirst', hlt'⟩ := head_packNibbles hs'
  obtain ⟨-, h⟩ := List.cons_prefix_cons.mp h
  obtain ⟨rfl, hpacked⟩ := append_prefix_append (p := fun weight => 16 ≤ weight) hprimary hprimary'
    ⟨first, by simp [hfirst], by simpa using hlt⟩ (by simpa [hfirst'] using hlt') h
  obtain ⟨-, hsame⟩ := packNibbles_prefix (by decide) (by decide) hs hs' hpacked
  rw [hsame]

/-! ### The General sort order -/

/-- Primary weights are above the marks that end a component. -/
theorem primary_ge {byte weight : UInt8} (h : weight ∈ weightBytes (primary byte)) :
    16 ≤ weight := by
  unfold primary at h
  rcases hget : TextWeights.primary[byte.toNat]? with _ | value
  · rw [List.getD_eq_getElem?_getD, hget] at h
    simp [weightBytes] at h
  · rw [List.getD_eq_getElem?_getD, hget] at h
    exact weighted.ge value (List.mem_of_getElem? hget) weight h

/-- The secondary weight of a character is a weight. -/
theorem accent_isWeight (byte : UInt8) : IsWeight ((accent byte).getD 2) := by
  unfold accent
  split_ifs <;> exact ⟨by decide, by decide⟩

/-- What a text encodes to: weights that are no nibbles, and nibbles that end nothing. -/
def IsComponent (mask : UInt8) (bytes : List UInt8) : Prop :=
  ∃ primary secondary, (∀ weight ∈ primary, 16 ≤ weight) ∧
    (∀ nibble ∈ secondary, IsWeight nibble) ∧ bytes = component mask primary secondary

/-- The key of a text is a component. -/
theorem isComponent_of_encode {value component : List UInt8} {maximum : UInt8}
    {direction : IndexDirection} (h : encode value maximum direction = some component) :
    IsComponent direction.mask component := by
  unfold encode at h
  split at h
  · cases h
  · dsimp only at h
    split at h
    · cases h
    · refine ⟨_, _, fun weight hmem => ?_, fun nibble hmem => ?_, (Option.some.inj h).symm⟩
      · obtain ⟨byte, -, hweight⟩ := List.mem_flatMap.mp hmem
        exact primary_ge hweight
      · obtain ⟨byte, -, hnibble⟩ := List.mem_flatMap.mp hmem
        obtain ⟨-, -, rfl⟩ := List.mem_map.mp hnibble
        exact accent_isWeight byte

end Text

/-! ### The other sort orders -/

namespace LocaleText

open Text

/-- The tables separate primary weights from nibbles, and accented weights carry nonzero ones. -/
def separates (tables : Weights) : Bool :=
  tables.primary.length = tables.secondary.length &&
    (tables.primary.zip tables.secondary).all fun (primary, secondary) =>
      (weightBytes primary).all fun weight => 16 ≤ weight &&
        (!accented tables weight || (2 ≤ UInt8.ofNat secondary && UInt8.ofNat secondary < 16))

/-- The tables of every order pass the check of their characters. -/
theorem separates_of_weights {order : SortOrder} {tables : Weights}
    (h : weights order = some tables) : separates tables = true := by
  cases order <;> simp only [weights, Option.some.injEq, reduceCtorEq] at h <;> subst h <;>
    decide +kernel

/-- The weights of a collation unit, and what an accented one carries. -/
def UnitSeparates (tables : Weights) (unit : ℕ × UInt8) : Prop :=
  ∀ weight ∈ weightBytes unit.1, 16 ≤ weight ∧ (accented tables weight = true → IsWeight unit.2)

/-- A character is told apart from the marks that end a component. -/
theorem unitSeparates_character {tables : Weights} (h : separates tables = true) (byte : UInt8) :
    UnitSeparates tables (tables.primary.getD byte.toNat 0,
      UInt8.ofNat (tables.secondary.getD byte.toNat 0)) := by
  simp only [separates, Bool.and_eq_true, decide_eq_true_eq, List.all_eq_true] at h
  intro weight hweight
  rcases Nat.lt_or_ge byte.toNat tables.primary.length with hlt | hge
  · have hlt' : byte.toNat < tables.secondary.length := h.1 ▸ hlt
    have hprimary : tables.primary.getD byte.toNat 0 = tables.primary[byte.toNat] := by
      rw [List.getD_eq_getElem?_getD, List.getElem?_eq_getElem hlt, Option.getD_some]
    have hsecondary : tables.secondary.getD byte.toNat 0 = tables.secondary[byte.toNat] := by
      rw [List.getD_eq_getElem?_getD, List.getElem?_eq_getElem hlt', Option.getD_some]
    rw [hprimary] at hweight
    rw [hsecondary]
    have hpair : (tables.primary[byte.toNat], tables.secondary[byte.toNat]) ∈
        tables.primary.zip tables.secondary := by
      rw [← List.getElem_zip (h := by rw [List.length_zip]; omega)]
      exact List.getElem_mem _
    obtain ⟨hge, hnibble⟩ := h.2 _ hpair weight hweight
    refine ⟨hge, fun haccented => ?_⟩
    rw [haccented] at hnibble
    simpa [IsWeight] using hnibble
  · rw [List.getD_eq_getElem?_getD, List.getElem?_eq_none hge] at hweight
    simp [weightBytes] at hweight

/-- So is a pair of characters with one weight. -/
theorem unitSeparates_contraction (tables : Weights) {order : SortOrder}
    {first second weight : UInt8}
    (h : contraction order first second = some weight) :
    UnitSeparates tables (weight.toNat, 2) := by
  have hweight : weight = 0x63 ∨ weight = 0x6e := by
    unfold contraction at h
    split_ifs at h
    · exact .inl (Option.some.inj h).symm
    · exact .inr (Option.some.inj h).symm
  intro byte hbyte
  have htwo : IsWeight 2 := ⟨by decide, by decide⟩
  refine ⟨?_, fun _ => htwo⟩
  rcases hweight with rfl | rfl
  · obtain rfl : byte = 0x63 := by simpa [weightBytes] using hbyte
    decide
  · obtain rfl : byte = 0x6e := by simpa [weightBytes] using hbyte
    decide

/-- So is every unit of a text. -/
theorem unitSeparates_units (order : SortOrder) {tables : Weights} (h : separates tables = true)
    (value : List UInt8) : ∀ unit ∈ units order tables value, UnitSeparates tables unit := by
  fun_induction units order tables value with
  | case1 => simp
  | case2 byte => simpa using unitSeparates_character h byte
  | case3 byte next rest weight hcontraction ih =>
    rw [List.forall_mem_cons]
    exact ⟨unitSeparates_contraction tables hcontraction, ih⟩
  | case4 byte next rest hcontraction ih =>
    rw [List.forall_mem_cons]
    exact ⟨unitSeparates_character h byte, ih⟩

/-- The key of a text in another order is a component. -/
theorem isComponent_of_encode {value component : List UInt8} {maximum : UInt8}
    {direction : IndexDirection} {order : SortOrder}
    (h : encode value maximum direction order = some component) :
    IsComponent direction.mask component := by
  unfold encode at h
  split at h
  · exact Text.isComponent_of_encode h
  · split at h
    · cases h
    · simp only [Option.bind_eq_bind, Option.bind_eq_some_iff] at h
      obtain ⟨tables, htables, page, -, h⟩ := h
      split at h
      · cases h
      · have hunits := unitSeparates_units order (separates_of_weights htables)
          (trimSpaces value)
        refine ⟨_, _, fun weight hmem => ?_, fun nibble hmem => ?_, (Option.some.inj h).symm⟩
        · obtain ⟨unit, hunit, hweight⟩ := List.mem_flatMap.mp hmem
          exact (hunits unit hunit weight hweight).1
        · obtain ⟨unit, hunit, hnibble⟩ := List.mem_flatMap.mp hmem
          obtain ⟨weight, hweight, rfl⟩ := List.mem_map.mp hnibble
          rw [List.mem_filter] at hweight
          exact (hunits unit hunit weight hweight.1).2 hweight.2

end LocaleText

/-! ## All columns -/

@[simp]
theorem length_flipSign (bytes : List UInt8) : (flipSign bytes).length = bytes.length := by
  cases bytes <;> rfl

namespace ScalarKeyType

/-- The components a column can encode. -/
def code (kind : ScalarKeyType) (direction : IndexDirection) : Set (List UInt8) :=
  {component | ∃ value, kind.encode value direction = some component}

/-- The bytes after the marker of a present component, where their number is fixed. -/
def width : ScalarKeyType → ℕ
  | boolean | byte => 1
  | integer => 2
  | long | single => 4
  | currency | double | dateTime => 8
  | binary _ | text _ _ | guid => 0

/-- What a present component looks like. -/
def Present (kind : ScalarKeyType) (mask : UInt8) (bytes : List UInt8) : Prop :=
  match kind with
  | binary _ | guid => ∃ value, bytes = (0x7f ^^^ mask) :: Binary.chunks mask value
  | text _ _ => Text.IsComponent mask bytes
  | kind => ∃ rest, bytes = (0x7f ^^^ mask) :: rest ∧ rest.length = kind.width

/-- The component of a number is the marker of null, or a marker and bytes of fixed count. -/
theorem plain_cases {kind : ScalarKeyType} {value : RowValue} {bytes : List UInt8}
    (h : kind.plain value = some bytes) :
    bytes = [0] ∨ ∃ rest, bytes = 0x7f :: rest ∧ rest.length = kind.width := by
  unfold plain at h
  split at h <;> first
    | (cases h; exact .inl rfl)
    | (cases h; exact .inr ⟨_, rfl, by simp [width]⟩)
    | (split at h
       · cases h
         exact .inr ⟨_, rfl, by simp [width]⟩
       · cases h)
    | cases h

/-- The component of a binary value is the marker of null, or a marker and its pieces. -/
theorem binary_encode_cases {value component : List UInt8} {maximum : ℕ}
    {direction : IndexDirection} (h : Binary.encode value maximum direction = some component) :
    component = [direction.mask] ∨
      ∃ value, component = (0x7f ^^^ direction.mask) :: Binary.chunks direction.mask value := by
  unfold Binary.encode at h
  split_ifs at h
  · exact .inl (Option.some.inj h).symm
  · exact .inr ⟨value, (Option.some.inj h).symm⟩

/-- The same for either direction. -/
theorem plain_map_cases {kind : ScalarKeyType} {value : RowValue} {direction : IndexDirection}
    {component : List UInt8}
    (h : (kind.plain value).map (List.map (· ^^^ direction.mask)) = some component) :
    component = [direction.mask] ∨ ∃ rest, component = (0x7f ^^^ direction.mask) :: rest ∧
      rest.length = kind.width := by
  obtain ⟨bytes, hplain, rfl⟩ := Option.map_eq_some_iff.mp h
  rcases plain_cases hplain with rfl | ⟨rest, rfl, hlength⟩
  · exact .inl (by simp)
  · exact .inr ⟨rest.map (· ^^^ direction.mask), rfl, by rw [List.length_map, hlength]⟩

/-- A component is the null marker or present. -/
theorem encode_cases {kind : ScalarKeyType} {value : RowValue} {direction : IndexDirection}
    {component : List UInt8} (h : kind.encode value direction = some component) :
    component = [direction.mask] ∨ kind.Present direction.mask component := by
  cases kind with
  | binary maximum =>
    cases value <;> simp [encode, plain] at h
    case null => exact .inl h.symm
    case binary bytes => exact binary_encode_cases h
  | text maximum order =>
    cases value <;> simp [encode, plain] at h
    case null => exact .inl h.symm
    case text bytes => exact .inr (LocaleText.isComponent_of_encode h)
  | guid =>
    cases value <;> simp [encode, plain] at h
    case null => exact .inl h.symm
    case guid bytes => exact binary_encode_cases h
  | _ => exact plain_map_cases h

/-- A component with a value starts with its marker. -/
theorem Present.exists_rest {kind : ScalarKeyType} {mask : UInt8} {bytes : List UInt8}
    (h : kind.Present mask bytes) : ∃ rest, bytes = (0x7f ^^^ mask) :: rest := by
  cases kind with
  | binary | guid =>
    obtain ⟨value, rfl⟩ := h
    exact ⟨_, rfl⟩
  | text =>
    obtain ⟨primary, secondary, -, -, rfl⟩ := h
    exact ⟨_, rfl⟩
  | _ =>
    obtain ⟨rest, rfl, -⟩ := h
    exact ⟨rest, rfl⟩

/-- The null marker marks nothing present. -/
theorem marker_ne {mask : UInt8} (hmask : mask = 0 ∨ mask = 0xff) : mask ≠ 0x7f ^^^ mask := by
  rcases hmask with rfl | rfl <;> decide

/-- No component is the front of another one of its type. -/
theorem Present.eq_of_prefix {kind : ScalarKeyType} {mask : UInt8} {a b : List UInt8}
    (ha : kind.Present mask a) (hmask : mask = 0 ∨ mask = 0xff) (hb : kind.Present mask b)
    (h : a <+: b) : a = b := by
  cases kind with
  | binary | guid =>
    obtain ⟨v, rfl⟩ := ha
    obtain ⟨w, rfl⟩ := hb
    rw [Binary.chunks_prefix hmask (List.cons_prefix_cons.mp h).2]
  | text =>
    obtain ⟨primary, secondary, hprimary, hsecondary, rfl⟩ := ha
    obtain ⟨primary', secondary', hprimary', hsecondary', rfl⟩ := hb
    exact Text.component_prefix hprimary hprimary' hsecondary hsecondary' h
  | _ =>
    obtain ⟨rest, rfl, hlength⟩ := ha
    obtain ⟨rest', rfl, hlength'⟩ := hb
    exact h.eq_of_length (by rw [List.length_cons, List.length_cons, hlength, hlength'])

/-- The components of a column form a prefix code. -/
theorem prefixFree_code (kind : ScalarKeyType) (direction : IndexDirection) :
    PrefixFree (kind.code direction) := by
  rintro a ⟨v, ha⟩ b ⟨w, hb⟩ h
  have hmask := mask_cases direction
  rcases encode_cases ha with rfl | ha <;> rcases encode_cases hb with rfl | hb
  · rfl
  · obtain ⟨rest, rfl⟩ := hb.exists_rest
    exact absurd (List.cons_prefix_cons.mp h).1 (marker_ne hmask)
  · obtain ⟨rest, rfl⟩ := ha.exists_rest
    exact absurd (List.cons_prefix_cons.mp h).1.symm (marker_ne hmask)
  · exact ha.eq_of_prefix hmask hb h

end ScalarKeyType

end Jet3
