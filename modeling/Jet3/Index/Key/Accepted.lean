import Jet3.Index.Key.TextShape

/-!
# Encoded components are accepted

The check of stored keys accepts what `encode` writes: `Accepts` says so of one component, whole and
cut.

* `Written` is what the encoders of texts write, unit after unit;
* `Binary.chunksPrefix_chunks` and `chunksPrefix_take` are the two results for binary data;
* `ScalarKeyType.accepts_of_encode` is the result for a column.
-/

namespace Jet3

/-! ## Texts -/

namespace Text

theorem length_weightBytes (primary : ℕ) : (weightBytes primary).length ≤ 2 := by
  rw [weightBytes]
  exact List.length_filter_le _ _

theorem length_trimSpaces (value : List UInt8) : (trimSpaces value).length ≤ value.length := by
  rw [trimSpaces, List.length_reverse]
  exact (List.dropWhile_sublist _).length_le.trans_eq List.length_reverse

namespace ComponentTables

variable {tables : ComponentTables}

/-- A longer text may spell the same weights. -/
theorem Spelled.mono {n m : ℕ} {entries : List (UInt8 × UInt8)} (h : tables.Spelled n entries)
    (hle : n ≤ m) : tables.Spelled m entries := by
  induction h generalizing m with
  | nil n => exact .nil m
  | @single n k weight secondary rest hcost hrest ih =>
    obtain ⟨more, rfl⟩ := Nat.exists_eq_add_of_le hle
    rw [Nat.add_assoc]
    exact .single hcost (ih (Nat.le_add_right n more))
  | @pair n first second rest hexpansion hrest ih =>
    obtain ⟨more, rfl⟩ := Nat.exists_eq_add_of_le hle
    rw [Nat.add_assoc]
    exact .pair hexpansion (ih (Nat.le_add_right n more))

/-- The weights of a character, the accented ones with its secondary weight. -/
def unitEntries (tables : ComponentTables) (unit : ℕ × UInt8) : List (UInt8 × UInt8) :=
  (weightBytes unit.1).map fun weight => (weight, if tables.accented weight then unit.2 else 2)

/-- The primary weights of the units, byte by byte. -/
theorem primary_unitEntries (units : List (ℕ × UInt8)) :
    (units.flatMap tables.unitEntries).map Prod.fst = units.flatMap fun unit =>
      weightBytes unit.1 := by
  rw [List.map_flatMap]
  refine congrArg (List.flatMap · units) (funext fun unit => ?_)
  simp [unitEntries, Function.comp_def]

/-- The secondary weights of the units whose primary weight can have one. -/
theorem secondaries_unitEntries (units : List (ℕ × UInt8)) :
    tables.secondaries (units.flatMap tables.unitEntries) = units.flatMap fun unit =>
      ((weightBytes unit.1).filter tables.accented).map fun _ => unit.2 := by
  rw [secondaries, List.filter_flatMap, List.map_flatMap]
  refine congrArg (List.flatMap · units) (funext fun unit => ?_)
  rw [unitEntries, List.filter_map, List.map_map]
  refine List.map_congr_left fun weight hweight => ?_
  have haccented : tables.accented weight = true := (List.mem_filter.mp hweight).2
  simp [haccented]

/-- A weight fits its secondary weight. -/
def entryFits (tables : ComponentTables) (entry : UInt8 × UInt8) : Bool :=
  tables.weight entry.1 && 16 ≤
    entry.1 && (!tables.accented entry.1 || (tables.allowed entry.1 entry.2 &&
    2 ≤ entry.2 && entry.2 < 16)) && (tables.accented entry.1 || entry.2 = 2)

theorem fits_of_entryFits {entry : UInt8 × UInt8} (h : tables.entryFits entry = true) :
    tables.Fits entry := by
  simp only [entryFits, Bool.and_eq_true, Bool.or_eq_true, Bool.not_eq_true', decide_eq_true_eq]
    at h
  obtain ⟨⟨⟨hweight, hge⟩, hallowed⟩, hneutral⟩ := h
  refine ⟨hweight, hge, fun haccented => ?_, fun haccented => ?_⟩
  · obtain ⟨⟨hallowed, htwo⟩, hlt⟩ := hallowed.resolve_left (by simp [haccented])
    exact ⟨hallowed, htwo, hlt⟩
  · exact hneutral.resolve_left (by simp [haccented])

/-- The weights of a character of `cost` source bytes fit, and cost no more. -/
def unitFits (tables : ComponentTables) (cost : ℕ) (unit : ℕ × UInt8) : Bool :=
  (tables.unitEntries unit).all tables.entryFits && match tables.unitEntries unit with
    | [] => true
    | [entry] => tables.cost entry.1 ≤ cost
    | [first, second] =>
      cost = 1 && tables.expansion first.1 second.1 && first.2 = 2 && second.2 = 2
    | _ => false

/-- Fitting weights of at most `n` source bytes. -/
structure Written (tables : ComponentTables) (n : ℕ) (entries : List (UInt8 × UInt8)) : Prop where
  spelled : tables.Spelled n entries
  length_le : entries.length ≤ 2 * n
  fits : ∀ entry ∈ entries, tables.Fits entry

theorem Written.nil : tables.Written 0 [] := ⟨.nil 0, Nat.zero_le _, by simp⟩

theorem Written.mono {n m : ℕ} {entries : List (UInt8 × UInt8)} (h : tables.Written n entries)
    (hle : n ≤ m) : tables.Written m entries :=
  ⟨h.spelled.mono hle, h.length_le.trans (Nat.mul_le_mul_left 2 hle), h.fits⟩

/-- A character more. -/
theorem Written.unit {n cost : ℕ} {unit : ℕ × UInt8} {rest : List (UInt8 × UInt8)}
    (hunit : tables.unitFits cost unit = true) (hcost : 1 ≤ cost) (h : tables.Written n rest) :
    tables.Written (cost + n) (tables.unitEntries unit ++ rest) := by
  rw [unitFits, Bool.and_eq_true, List.all_eq_true] at hunit
  obtain ⟨hfits, hunit⟩ := hunit
  refine ⟨?_, ?_, ?_⟩
  · split at hunit
    next hentries =>
      rw [hentries]
      exact h.spelled.mono (Nat.le_add_left n cost)
    next entry hentries =>
      rw [hentries]
      exact .single (of_decide_eq_true hunit) h.spelled
    next first second hentries =>
      simp only [Bool.and_eq_true, decide_eq_true_eq] at hunit
      obtain ⟨⟨⟨rfl, hexpansion⟩, hfirst⟩, hsecond⟩ := hunit
      obtain ⟨first, secondary⟩ := first
      obtain ⟨second, secondary'⟩ := second
      obtain rfl : secondary = 2 := hfirst
      obtain rfl : secondary' = 2 := hsecond
      rw [hentries]
      exact .pair hexpansion h.spelled
    next => cases hunit
  · have hlength := length_weightBytes unit.1
    have hrest := h.length_le
    rw [List.length_append, unitEntries, List.length_map]
    omega
  · intro entry hentry
    rcases List.mem_append.mp hentry with hmem | hmem
    · exact fits_of_entryFits (hfits entry hmem)
    · exact h.fits entry hmem

end ComponentTables

/-! ### The General sort order -/

/-- In the general order no character has more weights than the checks allow. -/
theorem costs_generalTables : generalTables.Costs :=
  fun _ _ _ => ⟨rfl, rfl⟩

/-- Every character of the general order has weights the checks allow. -/
theorem unitFits_general (byte : UInt8) :
    generalTables.unitFits 1 (primary byte, (accent byte).getD 2) = true := by
  have hall : ((List.range 256).all fun n => generalTables.unitFits 1
      (primary (UInt8.ofNat n), (accent (UInt8.ofNat n)).getD 2)) = true := by decide +kernel
  have h := List.all_eq_true.mp hall byte.toNat (List.mem_range.mpr byte.toNat_lt)
  rwa [UInt8.ofNat_toNat] at h

/-- The characters of a text. -/
def units (value : List UInt8) : List (ℕ × UInt8) :=
  value.map fun byte => (primary byte, (accent byte).getD 2)

/-- The units of a text spell its weights. -/
theorem written_units (value : List UInt8) :
    generalTables.Written value.length ((units value).flatMap generalTables.unitEntries) := by
  induction value with
  | nil => exact .nil
  | cons byte value ih =>
    rw [List.length_cons, Nat.add_comm]
    exact ih.unit (unitFits_general byte) le_rfl

/-- The key of a text spells the units of the text. -/
theorem isText_of_encode {value component : List UInt8} {maximum : UInt8}
    {direction : IndexDirection}
    (h : encode value maximum direction = some component) :
    ∃ entries, generalTables.IsText maximum direction.mask component entries := by
  unfold encode at h
  split at h
  · cases h
  next hlength =>
    dsimp only at h
    split at h
    · cases h
    have hwritten := (written_units (trimSpaces value)).mono
      ((length_trimSpaces value).trans (Nat.le_of_not_lt hlength))
    refine ⟨_, ⟨?_, hwritten.spelled, hwritten.length_le, hwritten.fits⟩⟩
    rw [ComponentTables.primary_unitEntries, ComponentTables.secondaries_unitEntries, units,
      List.flatMap_map, List.flatMap_map]
    exact (Option.some.inj h).symm

end Text

namespace LocaleText

open Text

/-! ### The other sort orders -/

/-- The characters and contractions of the tables fit. -/
def tablesFit (weights : Weights) : Bool :=
  ((List.range 256).all fun n => (componentTables weights).unitFits 1
    (weights.primary.getD n 0, UInt8.ofNat (weights.secondary.getD n 0))) &&
    weights.expansions.all fun pair => pair.all fun weight => weights.sourceCost.getD weight 0 = 1

/-- The tables of every order pass the checks of their characters. -/
theorem tablesFit_of_weights {order : SortOrder} {tables : Weights}
    (h : weights order = some tables) :
    tablesFit tables = true := by
  cases order <;> simp only [weights, Option.some.injEq, reduceCtorEq] at h <;> subst h <;>
    decide +kernel

/-- Every character of an order has weights the checks allow. -/
theorem unitFits_character {tables : Weights} (h : tablesFit tables = true) (byte : UInt8) :
    (componentTables tables).unitFits 1 (tables.primary.getD byte.toNat 0,
      UInt8.ofNat (tables.secondary.getD byte.toNat 0)) = true := by
  rw [tablesFit, Bool.and_eq_true, List.all_eq_true] at h
  exact h.1 byte.toNat (List.mem_range.mpr byte.toNat_lt)

/-- In no order a character has more weights than the checks allow. -/
theorem costs_componentTables {tables : Weights} (h : tablesFit tables = true) :
    (componentTables tables).Costs := by
  rw [tablesFit, Bool.and_eq_true, List.all_eq_true, List.all_eq_true] at h
  intro first second hexpansion
  have hpair := List.all_eq_true.mp (h.2 _ (List.contains_iff_mem.mp hexpansion))
  exact ⟨of_decide_eq_true (hpair first.toNat (by simp)),
    of_decide_eq_true (hpair second.toNat (by simp))⟩

/-- The contractions are Spanish, and cost two bytes. -/
theorem unitFits_contraction {order : SortOrder} {tables : Weights}
    (h : weights order = some tables)
    {first second weight : UInt8} (hcontraction : contraction order first second = some weight) :
    (componentTables tables).unitFits 2 (weight.toNat, 2) = true := by
  unfold contraction at hcontraction
  split_ifs at hcontraction with hspanish
  all_goals
    subst hspanish
    cases hcontraction
    cases h
    decide +kernel

/-- The units of a text in another order spell its weights. -/
theorem written_units {order : SortOrder} {tables : Weights} (h : weights order = some tables)
    (value : List UInt8) : (componentTables tables).Written value.length
      ((units order tables value).flatMap (componentTables tables).unitEntries) := by
  have hfit := tablesFit_of_weights h
  fun_induction units order tables value with
  | case1 => exact .nil
  | case2 byte =>
    exact @ComponentTables.Written.unit _ 0 1 _ [] (unitFits_character hfit byte) le_rfl .nil
  | case3 byte next rest weight hcontraction ih =>
    rw [List.length_cons, List.length_cons, Nat.add_assoc, Nat.add_comm]
    exact ih.unit (unitFits_contraction h hcontraction) (by decide)
  | case4 byte next rest hcontraction ih =>
    rw [List.length_cons, Nat.add_comm]
    exact ih.unit (unitFits_character hfit byte) le_rfl

/-- The key of a text in another order spells its units. -/
theorem isText_of_encode {value component : List UInt8} {maximum : UInt8}
    {direction : IndexDirection}
    {order : SortOrder} (horder : order ≠ .general)
    (h : encode value maximum direction order = some component) :
    ∃ tables entries, weights order = some tables ∧
      (componentTables tables).IsText maximum direction.mask component entries := by
  rw [encode, if_neg horder] at h
  split at h
  · cases h
  next hlength =>
    simp only [Option.bind_eq_bind, Option.bind_eq_some_iff] at h
    obtain ⟨tables, htables, page, -, h⟩ := h
    split at h
    · cases h
    have hwritten := (written_units htables (trimSpaces value)).mono
      ((length_trimSpaces value).trans (Nat.le_of_not_lt hlength))
    refine ⟨tables, _, htables, ⟨?_, hwritten.spelled, hwritten.length_le, hwritten.fits⟩⟩
    rw [ComponentTables.primary_unitEntries, ComponentTables.secondaries_unitEntries]
    exact (Option.some.inj h).symm

/-- What any sort order encodes is a text under the tables that check it. -/
theorem exists_isText_of_encode {value component : List UInt8} {maximum : UInt8}
    {direction : IndexDirection} {order : SortOrder}
    (h : encode value maximum direction order = some component) :
    ∃ (tables : ComponentTables) (entries : List (UInt8 × UInt8)), tables.Costs ∧
      tables.IsText maximum direction.mask component entries ∧ ∀ key,
        prefixOf key maximum direction order = tables.prefixOf key maximum direction := by
  by_cases horder : order = .general
  · rw [encode, if_pos horder] at h
    obtain ⟨entries, htext⟩ := Text.isText_of_encode h
    exact ⟨generalTables, entries, costs_generalTables, htext,
      fun key => by rw [prefixOf, if_pos horder]; rfl⟩
  · obtain ⟨tables, entries, htables, htext⟩ := isText_of_encode horder h
    refine ⟨componentTables tables, entries, costs_componentTables (tablesFit_of_weights htables),
      htext, fun key => ?_⟩
    rw [prefixOf, if_neg horder, htables, Option.bind_some]

end LocaleText

/-! ## Binary data -/

namespace Binary

variable {mask : UInt8} {maximum consumed offset : ℕ}

/-- A whole piece is passed over. -/
theorem chunksPrefix_append {chunk : List UInt8} (h : chunk.length = chunkBytes) (suffix : UInt8)
    (rest : List UInt8) :
    chunksPrefix mask maximum consumed offset (chunk ++ suffix :: rest) =
      if maximum ≤ consumed then none
      else if suffix = continued then
        chunksPrefix mask maximum (consumed + chunkBytes) (offset + framedChunkBytes) rest
      else if ¬(1 ≤ (suffix ^^^ mask).toNat ∧
          (suffix ^^^ mask).toNat ≤ min (maximum - consumed) chunkBytes) ∨
            (chunk.drop (suffix ^^^ mask).toNat).any (· ≠ mask) then none
      else some (.complete (offset + framedChunkBytes)) := by
  match chunk, h with
  | [_, _, _, _, _, _, _, _], _ => simp only [List.cons_append, List.nil_append, chunksPrefix]

/-- A key that ends inside a piece was cut there. -/
theorem chunksPrefix_short {chunk : List UInt8} (h : chunk.length ≤ chunkBytes) :
    chunksPrefix mask maximum consumed offset chunk =
      if maximum ≤ consumed then none
      else if (chunk.drop (min (maximum - consumed) chunkBytes)).any (· ≠ mask) then none
      else some (.cut (1 + framedChunkBytes * ((maximum + chunkBytes - 1) / chunkBytes))) := by
  unfold chunksPrefix
  split
  · simp only [List.length_cons, chunkBytes] at h
    omega
  · rfl

/-- A value of more than one chunk: its first chunk, and a shorter rest. -/
theorem split_chunk {value : List UInt8} (h : chunkBytes < value.length) :
    ((value.take chunkBytes).map (· ^^^ mask)).length = chunkBytes ∧ value.drop chunkBytes ≠ [] ∧
      (value.drop chunkBytes).length = value.length - chunkBytes ∧
      (value.drop chunkBytes).length < value.length := by
  have hrest : (value.drop chunkBytes).length = value.length - chunkBytes := List.length_drop
  refine ⟨?_, ?_, hrest, hrest.trans_lt (Nat.sub_lt (by omega) (by decide))⟩
  · rw [List.length_map, List.length_take]
    omega
  · rw [ne_eq, List.drop_eq_nil_iff]
    omega

/-- The pieces of a binary value, each with the byte behind it. -/
theorem length_chunks {value : List UInt8} (h : value ≠ []) :
    (chunks mask value).length =
      framedChunkBytes * ((value.length + chunkBytes - 1) / chunkBytes) := by
  induction hn : value.length using Nat.strong_induction_on generalizing value with
  | _ n ih =>
    subst hn
    have hpos := List.length_pos_of_ne_nil h
    rcases Nat.lt_or_ge chunkBytes value.length with hlt | hle
    · obtain ⟨hchunk, hdrop, hrest, hless⟩ := @split_chunk mask value hlt
      rw [chunks_of_lt hlt, List.length_append, List.length_cons, hchunk, ih _ hless hdrop rfl,
        hrest]
      unfold framedChunkBytes chunkBytes at *
      omega
    · rw [chunks_of_le hle]
      simp only [List.length_append, List.length_map, List.length_replicate, List.length_singleton]
      unfold framedChunkBytes chunkBytes at *
      omega

/-- The padding of a last chunk. -/
theorem mem_drop_padded {bytes : List UInt8} {more count : ℕ} (h : bytes.length ≤ count)
    {byte : UInt8}
    (hmem : byte ∈ (bytes ++ List.replicate more mask).drop count) : byte = mask := by
  rw [List.drop_append, List.drop_eq_nil_of_le h, List.nil_append] at hmem
  exact List.eq_of_mem_replicate (List.mem_of_mem_drop hmem)

/-- Whole chunks are accepted, whatever follows them. -/
theorem chunksPrefix_chunks (hmask : mask = 0 ∨ mask = 0xff) {value : List UInt8}
    (hvalue : value ≠ [])
    (hlength : consumed + value.length ≤ maximum) (tail : List UInt8) :
    chunksPrefix mask maximum consumed offset (chunks mask value ++ tail) =
      some (.complete (offset + (chunks mask value).length)) := by
  induction hn : value.length using Nat.strong_induction_on generalizing value consumed offset with
  | _ n ih =>
    subst hn
    have hpos := List.length_pos_of_ne_nil hvalue
    rcases Nat.lt_or_ge chunkBytes value.length with hlt | hle
    · obtain ⟨hchunk, hdrop, hrest, hless⟩ := @split_chunk mask value hlt
      rw [chunks_of_lt hlt, List.append_assoc, List.cons_append, chunksPrefix_append hchunk,
        if_neg (by omega), if_pos rfl, ih _ hless hdrop (by omega) rfl,
        List.length_append, hchunk, List.length_cons]
      congr 2
      unfold framedChunkBytes
      omega
    · have hchunk : (value.map (· ^^^ mask) ++
          List.replicate (chunkBytes - value.length) mask).length = chunkBytes := by
        rw [List.length_append, List.length_map, List.length_replicate]
        omega
      have hsuffix : (UInt8.ofNat value.length ^^^ mask ^^^ mask).toNat = value.length := by
        rw [UInt8.xor_assoc, UInt8.xor_self, UInt8.xor_zero, UInt8.toNat_ofNat']
        unfold chunkBytes at hle
        omega
      rw [chunks_of_le hle, List.append_assoc, List.singleton_append, chunksPrefix_append hchunk,
        if_neg (by omega), if_neg (continued_ne_suffix hmask hle).symm, hsuffix, if_neg,
        List.length_append, hchunk]
      · rfl
      · rintro (hbounds | hpadding)
        · omega
        · obtain ⟨byte, hmem, hbyte⟩ := List.any_eq_true.mp hpadding
          exact absurd (mem_drop_padded (List.length_map _).le hmem) (of_decide_eq_true hbyte)

/-- Chunks that are cut are accepted as a part. -/
theorem chunksPrefix_take {value : List UInt8} (hvalue : value ≠ [])
    (hlength : consumed + value.length ≤ maximum) {count : ℕ}
    (hcount : count < (chunks mask value).length) :
    chunksPrefix mask maximum consumed offset ((chunks mask value).take count) =
      some (.cut (1 + framedChunkBytes * ((maximum + chunkBytes - 1) / chunkBytes))) := by
  induction hn : value.length using Nat.strong_induction_on generalizing value consumed offset
    count with
  | _ n ih =>
    subst hn
    have hpos := List.length_pos_of_ne_nil hvalue
    rcases Nat.lt_or_ge chunkBytes value.length with hlt | hle
    · obtain ⟨hchunk, hdrop, hrest, hless⟩ := @split_chunk mask value hlt
      rw [chunks_of_lt hlt] at hcount ⊢
      rcases Nat.lt_or_ge chunkBytes count with hmore | hinside
      · obtain ⟨more, rfl⟩ := Nat.exists_eq_add_of_lt hmore
        rw [List.length_append, hchunk, List.length_cons] at hcount
        rw [List.take_append, hchunk, List.take_of_length_le (by omega),
          show chunkBytes + more + 1 - chunkBytes = more + 1 by omega, List.take_succ_cons,
          chunksPrefix_append hchunk, if_neg (by omega), if_pos rfl]
        exact ih _ hless hdrop (by omega) (by omega) rfl
      · -- the cut is in the chunk, all of whose bytes are the value's
        rw [List.take_append_of_le_length (by omega),
          chunksPrefix_short (by rw [List.length_take]; omega),
          if_neg (by omega), List.drop_eq_nil_of_le (by rw [List.length_take]; omega)]
        rfl
    · rw [chunks_of_le hle] at hcount ⊢
      rw [List.length_append, List.length_append, List.length_map, List.length_replicate,
        List.length_singleton] at hcount
      rw [List.take_append_of_le_length (by
          rw [List.length_append, List.length_map, List.length_replicate]
          omega),
        chunksPrefix_short (by rw [List.length_take]; omega), if_neg (by omega), if_neg]
      intro hpadding
      obtain ⟨byte, hmem, hbyte⟩ := List.any_eq_true.mp hpadding
      rw [List.drop_take] at hmem
      refine absurd (mem_drop_padded ?_ (List.mem_of_mem_take hmem)) (of_decide_eq_true hbyte)
      rw [List.length_map]
      omega

end Binary

/-! ## Columns -/

namespace ScalarKeyType

/-- A component is taken for what it is, whole and cut. -/
structure Accepts (kind : ScalarKeyType) (direction : IndexDirection) (component : List UInt8) :
    Prop where
  whole : ∀ tail, kind.prefixOf (component ++ tail) direction = some (.complete component.length)
  cut : ∀ count < component.length,
    kind.prefixOf (component.take count) direction = some (.cut kind.maximumLength)
  length_le : component.length ≤ kind.maximumLength

variable {kind : ScalarKeyType} {value : RowValue} {direction : IndexDirection}
  {component : List UInt8}

/-- The key of null is its marker alone. -/
theorem prefixOf_null (hkind : kind ≠ boolean) (tail : List UInt8) :
    kind.prefixOf (direction.mask :: tail) direction = some (.complete 1) := by
  unfold prefixOf
  rw [List.head?_cons]
  dsimp only
  rw [UInt8.xor_self, if_pos rfl, if_neg hkind]

theorem one_le_maximumLength (kind : ScalarKeyType) : 1 ≤ kind.maximumLength := by
  cases kind <;> simp only [maximumLength] <;> omega

/-- The null marker is accepted. -/
theorem accepts_null (hkind : kind ≠ boolean) : kind.Accepts direction [direction.mask] := by
  refine ⟨prefixOf_null hkind, fun count hcount => ?_, kind.one_le_maximumLength⟩
  obtain rfl : count = 0 := by simpa using hcount
  rfl

theorem marker_present : 0x7f ^^^ direction.mask ^^^ direction.mask = (0x7f : UInt8) := by
  rw [UInt8.xor_assoc, UInt8.xor_self, UInt8.xor_zero]

/-- Behind the marker of a present component, the column decides. -/
theorem prefixOf_present (kind : ScalarKeyType) (direction : IndexDirection) (rest : List UInt8) :
    kind.prefixOf ((0x7f ^^^ direction.mask) :: rest) direction = match kind with
      | binary maxLen => Binary.prefixOf ((0x7f ^^^ direction.mask) :: rest) maxLen direction
      | text maxLen sortOrder =>
        LocaleText.prefixOf ((0x7f ^^^ direction.mask) :: rest) maxLen direction sortOrder
      | kind =>
        if fixedShape kind ((0x7f ^^^ direction.mask) :: rest) direction then
          if ((0x7f ^^^ direction.mask) :: rest).length < kind.maximumLength then
            some (.cut kind.maximumLength)
          else some (.complete kind.maximumLength)
        else none := by
  unfold prefixOf
  rw [List.head?_cons]
  dsimp only
  rw [marker_present, if_neg (by decide)]
  exact if_pos rfl

/-- The bytes behind the marker of a present component of fixed length have the fixed shape. -/
theorem prefixOf_fixed (hkind : kind.isBinary = false ∧ ∀ maximum order, kind ≠ text maximum order)
    {key rest : List UInt8} (hkey : key = (0x7f ^^^ direction.mask) :: rest) :
    kind.prefixOf key direction = if fixedShape kind key direction then
      if key.length < kind.maximumLength then some (.cut kind.maximumLength)
      else some (.complete kind.maximumLength) else none := by
  subst hkey
  rw [prefixOf_present]
  split
  · cases hkind.1
  · exact absurd rfl (hkind.2 _ _)
  · rfl

/-- Bytes that agree where both have one. -/
theorem fixedShape_of_prefix {key key' : List UInt8} (h : key' <+: key)
    (hshape : fixedShape kind key direction = true) : fixedShape kind key' direction = true := by
  have hget : ∀ (i : ℕ) (byte : UInt8), key'[i]? = some byte → key[i]? = some byte := by
    intro i byte hbyte
    obtain ⟨hlt, -⟩ := List.getElem?_eq_some_iff.mp hbyte
    rw [← hbyte, (List.prefix_iff_getElem?.mp h) i hlt, List.getElem?_eq_getElem hlt]
  have hnone : ∀ (i : ℕ) (bad : UInt8 → Bool), key[i]?.any bad = false → key'[i]?.any bad =
    false := by
    intro i bad hbad
    cases hbyte : key'[i]? with
    | none => rfl
    | some byte =>
      rw [hget i byte hbyte] at hbad
      exact hbad
  unfold fixedShape at hshape ⊢
  split
  next hguid =>
    rw [if_pos hguid, Bool.and_eq_true, Bool.not_eq_true', Bool.not_eq_true'] at hshape
    rw [hnone _ _ hshape.1, hnone _ _ hshape.2]
    rfl
  next hguid =>
    rw [if_neg hguid] at hshape
    split
    next hboolean =>
      rw [if_pos hboolean, Bool.not_eq_true'] at hshape
      rw [hnone _ _ hshape]
      rfl
    next => rfl

/-- A present component of fixed length is accepted. -/
theorem accepts_fixed (hkind : kind.isBinary = false ∧ ∀ maximum order, kind ≠ text maximum order)
    {rest : List UInt8} (hcomponent : component = (0x7f ^^^ direction.mask) :: rest)
    (hlength : component.length = kind.maximumLength)
    (hshape : ∀ tail, fixedShape kind (component ++ tail) direction = true) :
    kind.Accepts direction component := by
  refine ⟨fun tail => ?_, fun count hcount => ?_, hlength.le⟩
  · rw [prefixOf_fixed hkind (by rw [hcomponent, List.cons_append]), if_pos (hshape tail), if_neg,
      hlength]
    rw [List.length_append]
    omega
  · rcases count with _ | count
    · rfl
    · rw [prefixOf_fixed hkind (by rw [hcomponent, List.take_succ_cons]), if_pos, if_pos]
      · rw [List.length_take]
        omega
      · refine fixedShape_of_prefix (List.take_prefix _ _) ?_
        have h := hshape []
        rwa [List.append_nil] at h

/-- A text component is accepted, and no null marker. -/
theorem accepts_text {bytes : List UInt8} {maxLen : UInt8} {order : SortOrder}
    (h : LocaleText.encode bytes maxLen direction order = some component) :
    (text maxLen order).Accepts direction component ∧ component.length ≠ 1 := by
  obtain ⟨tables, entries, hcosts, htext, hprefix⟩ := LocaleText.exists_isText_of_encode h
  have hlength := htext.length_eq
  have hle := htext.length_le
  have hsecondary := htext.length_trimNeutral_le
  obtain ⟨rest, hrest⟩ : ∃ rest, component = (0x7f ^^^ direction.mask) :: rest :=
    ⟨_, htext.bytes_eq.trans (List.cons_append ..)⟩
  have hpresent : ∀ tail, (text maxLen order).prefixOf ((0x7f ^^^ direction.mask) :: tail)
    direction =
      tables.prefixOf ((0x7f ^^^ direction.mask) :: tail) maxLen direction := by
    intro tail
    rw [← hprefix]
    exact prefixOf_present _ direction tail
  refine ⟨⟨fun tail => ?_, fun count hcount => ?_, ?_⟩, by omega⟩
  · have hwhole := htext.prefixOf_component hcosts tail
    rw [hrest, List.cons_append] at hwhole ⊢
    rw [hpresent, hwhole]
  · rcases count with _ | count
    · rfl
    · have hcut := htext.prefixOf_take hcosts hcount
      rw [hrest, List.take_succ_cons] at hcut ⊢
      rw [hpresent, hcut]
      rfl
  · rw [maximumLength]
    omega

/-- Binary data is accepted. -/
theorem accepts_binary {bytes : List UInt8} {maxLen : UInt8}
    (h : Binary.encode bytes maxLen.toNat direction = some component) (hbytes : bytes ≠ []) :
    (binary maxLen).Accepts direction component ∧ component.length ≠ 1 := by
  unfold Binary.encode at h
  split at h
  · cases h
  next hlong =>
    rw [if_neg (by simpa using hbytes)] at h
    obtain rfl := Option.some.inj h
    have hmask := mask_cases direction
    have hpos := List.length_pos_of_ne_nil hbytes
    have hlength := @Binary.length_chunks direction.mask _ hbytes
    have hpresent : ∀ tail, (binary maxLen).prefixOf ((0x7f ^^^ direction.mask) :: tail) direction =
        Binary.chunksPrefix direction.mask maxLen.toNat 0 1 tail := prefixOf_present _ direction
    unfold Binary.framedChunkBytes Binary.chunkBytes at hlength
    refine ⟨⟨fun tail => ?_, fun count hcount => ?_, ?_⟩, ?_⟩
    · rw [List.cons_append, hpresent, Binary.chunksPrefix_chunks hmask hbytes (by omega),
        List.length_cons, Nat.add_comm]
    · rcases count with _ | count
      · rfl
      · rw [List.length_cons] at hcount
        rw [List.take_succ_cons, hpresent, Binary.chunksPrefix_take hbytes (by omega) (by omega)]
        rfl
    · rw [List.length_cons, maximumLength, hlength]
      omega
    · rw [List.length_cons, hlength]
      omega

/-- What `plain` writes of null and of a present value. -/
theorem plain_shape {bytes : List UInt8} (hkind : kind.isBinary = false)
    (h : kind.plain value = some bytes) :
    (bytes = [0] ∧ kind ≠ boolean ∧ kind.isNull value = true) ∨
      (∃ rest, bytes = 0x7f :: rest ∧ rest.length = kind.width ∧ kind.isNull value = false ∧
        (kind = boolean → rest = [0] ∨ rest = [0xff])) := by
  unfold plain at h
  split at h
  · cases h
    exact .inr ⟨_, rfl, rfl, rfl, fun _ => .inr rfl⟩
  next hnull =>
    cases h
    have hne : kind ≠ boolean := fun heq => hnull heq
    exact .inl ⟨rfl, hne, by simp [isNull, hne]⟩
  next flag =>
    cases h
    refine .inr ⟨_, rfl, rfl, rfl, fun _ => ?_⟩
    cases flag
    · exact .inr rfl
    · exact .inl rfl
  all_goals first
    | (cases h; exact .inr ⟨_, rfl, by simp [width], rfl, by simp⟩)
    | (split at h
       · cases h
         exact .inr ⟨_, rfl, by simp [width], rfl, by simp⟩
       · cases h)
    | cases h

/-- Numbers, dates and flags are accepted. -/
theorem accepts_plain (hkind : kind.isBinary = false)
    (htext : ∀ maximum order, kind ≠ text maximum order)
    (hguid : kind ≠ guid)
    (h : (kind.plain value).map (List.map (· ^^^ direction.mask)) = some component) :
    kind.Accepts direction component ∧ (component.length = 1 ↔ kind.isNull value = true) := by
  obtain ⟨bytes, hplain, rfl⟩ := Option.map_eq_some_iff.mp h
  rcases plain_shape hkind hplain with ⟨rfl, hboolean, hnull⟩ | ⟨rest, rfl, hlength, hnull, hflag⟩
  · rw [List.map_singleton, UInt8.zero_xor]
    exact ⟨accepts_null hboolean, by simp [hnull]⟩
  · have hwidth : 1 ≤ kind.width ∧ kind.maximumLength = kind.width + 1 := by
      cases kind <;> simp_all [width, maximumLength, isBinary]
    refine ⟨accepts_fixed ⟨hkind, htext⟩ rfl ?_ fun tail => ?_, ?_⟩
    · rw [List.length_map, List.length_cons, hlength, hwidth.2]
    · unfold fixedShape
      rw [if_neg hguid]
      split
      next hboolean =>
        rcases hflag hboolean with rfl | rfl <;> cases direction <;> rfl
      next => rfl
    · rw [List.length_map, List.length_cons, hlength, hnull]
      simp only [Bool.false_eq_true, iff_false]
      omega

/-- Replication identifiers are accepted: their chunks hold eight bytes each. -/
theorem accepts_guid {bytes : Vector UInt8 16}
    (h : Binary.encode bytes.toList 16 direction = some component) :
    guid.Accepts direction component ∧ component.length ≠ 1 := by
  have hlength : bytes.toList.length = 16 := bytes.length_toList
  generalize bytes.toList = value at h hlength
  match value, hlength with
  | [_, _, _, _, _, _, _, _, _, _, _, _, _, _, _, _], _ =>
    obtain rfl := Option.some.inj h
    refine ⟨accepts_fixed ⟨rfl, fun _ _ => by simp⟩ rfl rfl fun tail => ?_, by simp [Binary.chunks]⟩
    unfold fixedShape
    rw [if_pos rfl]
    simp [Binary.chunks, Binary.continued, Binary.chunkBytes]

/-- Whatever a column encodes is accepted, and is the null marker where the value is null. -/
theorem accepts_of_encode (h : kind.encode value direction = some component) :
    kind.Accepts direction component ∧ (component.length = 1 ↔ kind.isNull value = true) := by
  cases kind with
  | binary maxLen =>
    cases value <;> simp [encode, plain] at h
    case null =>
      subst h
      exact ⟨accepts_null (by simp), by simp [isNull]⟩
    case binary bytes =>
      by_cases hbytes : bytes = []
      · subst hbytes
        obtain rfl : [direction.mask] = component := by simpa [Binary.encode] using h
        exact ⟨accepts_null (by simp), by simp [isNull, isBinary]⟩
      · obtain ⟨haccepts, hlength⟩ := accepts_binary h hbytes
        exact ⟨haccepts, by simp [isNull, hlength, hbytes]⟩
  | text maxLen order =>
    cases value <;> simp [encode, plain] at h
    case null =>
      subst h
      exact ⟨accepts_null (by simp), by simp [isNull]⟩
    case text bytes =>
      obtain ⟨haccepts, hlength⟩ := accepts_text h
      exact ⟨haccepts, by simp [isNull, isBinary, hlength]⟩
  | guid =>
    cases value <;> simp [encode, plain] at h
    case null =>
      subst h
      exact ⟨accepts_null (by simp), by simp [isNull]⟩
    case guid bytes =>
      obtain ⟨haccepts, hlength⟩ := accepts_guid h
      exact ⟨haccepts, by simp [isNull, isBinary, hlength]⟩
  | _ => exact accepts_plain rfl (by simp) (by simp) h

end ScalarKeyType

end Jet3
