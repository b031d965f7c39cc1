import Jet3.Index.Key.Shape

/-!
# Texts are accepted

A text component is accepted by the check of stored keys: whole, whatever follows it, and cut
anywhere.

* `takeSecondary_ok` and `scan_append` follow the secondary weights;
* `IsText` says what a component is made of;
* `IsText.prefixOf_component` and `IsText.prefixOf_take` are the two results.
-/

namespace Jet3.Text

/-! ## Halves of bytes -/

/-- A byte is split into the halves it was made of. -/
theorem halves_nibbles {high low : UInt8} (hhigh : high < 16) (hlow : low < 16) :
    nibbles high low >>> 4 = high ∧ nibbles high low &&& 15 = low := by
  have hall : ∀ i < 16, ∀ j < 16,
      nibbles (UInt8.ofNat i) (UInt8.ofNat j) >>> 4 = UInt8.ofNat i ∧
        nibbles (UInt8.ofNat i) (UInt8.ofNat j) &&& 15 = UInt8.ofNat j := by decide
  have h := hall high.toNat (UInt8.lt_iff_toNat_lt.mp hhigh) low.toNat
    (UInt8.lt_iff_toNat_lt.mp hlow)
  rwa [UInt8.ofNat_toNat, UInt8.ofNat_toNat] at h

theorem length_packed (mask : UInt8) (nibbles : List UInt8) :
    (packNibbles mask nibbles).length = (nibbles.length + 1) / 2 := by
  induction nibbles using packNibbles.induct with
  | case1 => rfl
  | case2 high => simp [packNibbles]
  | case3 high low rest ih =>
    simp only [packNibbles, List.length_cons, ih]
    omega

namespace ComponentTables

theorem length_halves (bytes : List UInt8) : (halves bytes).length = 2 * bytes.length := by
  induction bytes with
  | nil => rfl
  | cons byte bytes ih =>
    rw [halves, List.flatMap_cons, List.length_append]
    rw [halves] at ih
    simp only [ih, List.length_cons, List.length_nil]
    omega

theorem halves_append (a b : List UInt8) : halves (a ++ b) = halves a ++ halves b :=
  List.flatMap_append

/-- Packed nibbles are unpacked, with a zero where their number is odd. -/
theorem halves_packNibbles {nibbles : List UInt8} (h : ∀ nibble ∈ nibbles, nibble < 16) :
    halves (packNibbles 0 nibbles) = nibbles ++ if nibbles.length % 2 = 1 then [0] else [] := by
  induction nibbles using packNibbles.induct with
  | case1 => rfl
  | case2 high =>
    obtain ⟨hfirst, hsecond⟩ :=
      halves_nibbles (h high List.mem_cons_self) (show (0 : UInt8) < 16 by decide)
    rw [packNibbles_one, halves, List.flatMap_singleton, hfirst, hsecond]
    rfl
  | case3 high low rest ih =>
    obtain ⟨hfirst, hsecond⟩ := halves_nibbles (h high List.mem_cons_self)
      (h low (List.mem_cons_of_mem _ List.mem_cons_self))
    have hrest := ih fun nibble hmem =>
      h nibble (List.mem_cons_of_mem _ (List.mem_cons_of_mem _ hmem))
    rw [halves] at hrest
    rw [packNibbles_two, halves, List.flatMap_cons, hfirst, hsecond, hrest]
    simp only [List.length_cons, List.cons_append, List.nil_append, Nat.add_assoc,
      Nat.add_mod_right]

/-! ## Secondary weights -/

/-- The secondary weights of the accented entries. -/
def secondaries (tables : ComponentTables) (entries : List (UInt8 × UInt8)) : List UInt8 :=
  (entries.filter fun entry => tables.accented entry.1).map Prod.snd

/-- A weight with a secondary weight it can carry. -/
structure Fits (tables : ComponentTables) (entry : UInt8 × UInt8) : Prop where
  weight : tables.weight entry.1 = true
  weight_ge : 16 ≤ entry.1
  allowed : tables.accented entry.1 = true → tables.allowed entry.1 entry.2 = true ∧
    IsWeight entry.2
  neutral : tables.accented entry.1 = false → entry.2 = 2

variable {tables : ComponentTables}

/-- Secondary weights that fit are weights. -/
theorem isWeight_of_mem_secondaries {entries : List (UInt8 × UInt8)}
    (hfits : ∀ entry ∈ entries, tables.Fits entry) {nibble : UInt8}
    (h : nibble ∈ tables.secondaries entries) : IsWeight nibble := by
  obtain ⟨entry, hentry, rfl⟩ := List.mem_map.mp h
  obtain ⟨hmem, haccented⟩ := List.mem_filter.mp hentry
  exact ((hfits entry hmem).allowed haccented).2

/-- The next secondary weight goes to the next accented entry. -/
theorem takeSecondary_ok {entries : List (UInt8 × UInt8)} {nibble : UInt8} {rest : List UInt8}
    (hfits : ∀ entry ∈ entries, tables.Fits entry)
    (h : tables.secondaries entries = nibble :: rest) :
    ∃ taken others, entries = taken ++ others ∧ tables.secondaries others = rest ∧
      tables.takeSecondary nibble (entries.map Prod.fst) = some (taken, others.map Prod.fst) := by
  induction entries with
  | nil => cases h
  | cons entry entries ih =>
    rw [List.forall_mem_cons] at hfits
    rw [List.map_cons, takeSecondary]
    by_cases haccented : tables.accented entry.1 = true
    · rw [secondaries, List.filter_cons, if_pos haccented, List.map_cons, List.cons.injEq] at h
      obtain ⟨rfl, hrest⟩ := h
      exact ⟨[entry], entries, rfl,
        hrest, by rw [if_pos haccented, if_pos (hfits.1.allowed haccented).1]⟩
    · rw [secondaries, List.filter_cons, if_neg haccented] at h
      obtain ⟨taken, others, rfl, hrest, htaken⟩ := ih hfits.2 h
      refine ⟨entry :: taken, others, rfl, hrest, ?_⟩
      rw [if_neg haccented, htaken, Option.map_some,
        ← hfits.1.neutral (Bool.eq_false_iff.mpr haccented)]

/-- The scan takes the secondary weights of the entries one after the other. -/
theorem scan_append {maximum : ℕ} {entries done : List (UInt8 × UInt8)} {nibbles : List UInt8}
    {last : UInt8} {index : ℕ} (hfits : ∀ entry ∈ entries, tables.Fits entry)
    (h : nibbles <+: tables.secondaries entries) (more : List UInt8) :
    ∃ taken others, entries = taken ++ others ∧
      tables.scan maximum done (entries.map Prod.fst) last index (nibbles ++ more) =
        tables.scan maximum (done ++ taken) (others.map Prod.fst) (nibbles.getLast?.getD last)
          (index + nibbles.length) more := by
  induction nibbles generalizing entries done last index with
  | nil => exact ⟨[], entries, rfl, by simp⟩
  | cons nibble nibbles ih =>
    obtain ⟨rest, hrest⟩ := h
    rw [List.cons_append] at hrest
    obtain ⟨taken, others, rfl, hothers, htaken⟩ := takeSecondary_ok hfits hrest.symm
    have hnonzero : nibble ≠ 0 :=
      (isWeight_of_mem_secondaries hfits (hrest ▸ List.mem_cons_self)).ne_zero
    obtain ⟨taken', others', rfl, hscan⟩ := @ih others (done ++ taken) nibble (index + 1)
      (fun entry hentry => hfits entry (List.mem_append_right _ hentry)) ⟨rest, hothers.symm⟩
    refine ⟨taken ++ taken', others', (List.append_assoc ..).symm, ?_⟩
    rw [List.cons_append, scan, if_neg hnonzero, htaken]
    dsimp only
    rw [hscan, List.getLast?_cons, Option.getD_some, List.length_cons, List.append_assoc,
      Nat.add_right_comm, Nat.add_assoc]

/-- Entries of which only the first have their secondary weight cost no more. -/
theorem Spelled.sourceBytes_reset_le (hcosts : tables.Costs) {n : ℕ}
    {taken others : List (UInt8 × UInt8)} (h : tables.Spelled n (taken ++ others)) :
    tables.sourceBytes (taken ++ (others.map Prod.fst).map fun weight => (weight, 2)) ≤ n := by
  refine (h.reset ?_).sourceBytes_le hcosts
  rw [List.map_map]
  refine List.rel_append (List.forall₂_same.mpr fun _ _ => ⟨rfl, .inl rfl⟩) ?_
  rw [List.forall₂_map_right_iff]
  exact List.forall₂_same.mpr fun _ _ => ⟨rfl, .inr rfl⟩

/-! ## Components -/

/-- What `prefixOf` does with weights and the bytes behind them. -/
theorem prefixOf_eq {key packed : List UInt8} {entries : List (UInt8 × UInt8)} {maximum : UInt8}
    {direction : IndexDirection}
    (hkey : (key.drop 1).map (· ^^^ direction.mask) = entries.map Prod.fst ++ packed)
    (hhead : ∀ byte ∈ packed.head?, byte < 16) (hfits : ∀ entry ∈ entries, tables.Fits entry)
    (hcount : entries.length ≤ 2 * maximum.toNat) :
    tables.prefixOf key maximum direction =
      tables.scan maximum.toNat [] (entries.map Prod.fst) 0 (2 * (1 + entries.length) + 1)
        ((halves packed).drop 1) := by
  have hnone : packed.takeWhile (fun byte => 0x10 ≤ byte) = [] := by
    rcases packed with _ | ⟨byte, packed⟩
    · rfl
    · rw [List.takeWhile_cons_of_neg]
      have hlt := hhead byte rfl
      simpa using hlt
  have hprimary : (entries.map Prod.fst ++ packed).takeWhile (fun byte => 0x10 ≤ byte) =
      entries.map Prod.fst := by
    rw [List.takeWhile_append_of_pos, hnone, List.append_nil]
    intro weight hweight
    obtain ⟨entry, hentry, rfl⟩ := List.mem_map.mp hweight
    exact decide_eq_true (hfits entry hentry).weight_ge
  rw [prefixOf]
  rw [hkey, hprimary, if_neg, List.length_map, List.drop_left' (List.length_map _)]
  rintro (hany | hlong)
  · obtain ⟨weight, hweight, hbad⟩ := List.any_eq_true.mp hany
    obtain ⟨entry, hentry, rfl⟩ := List.mem_map.mp hweight
    rw [(hfits entry hentry).weight] at hbad
    cases hbad
  · rw [List.length_map] at hlong
    omega

/-- A text component: its weights come from at most `maximum` source bytes. -/
structure IsText (tables : ComponentTables) (maximum : UInt8) (mask : UInt8) (bytes : List UInt8)
    (entries : List (UInt8 × UInt8)) : Prop where
  bytes_eq : bytes = component mask (entries.map Prod.fst) (tables.secondaries entries)
  spelled : tables.Spelled maximum.toNat entries
  length_le : entries.length ≤ 2 * maximum.toNat
  fits : ∀ entry ∈ entries, tables.Fits entry

section Component

variable {maximum : UInt8} {direction : IndexDirection} {bytes : List UInt8}
  {entries : List (UInt8 × UInt8)}

/-- The secondary weights that are written. -/
theorem trimNeutral_initial (secondary : List UInt8) : trimNeutral secondary <+: secondary := by
  have h := List.dropWhile_suffix (l := secondary.reverse) (fun nibble => decide (nibble = 2))
  rw [trimNeutral]
  exact List.reverse_suffix.mp (by rwa [List.reverse_reverse])

/-- The last weight that is kept is not neutral. -/
theorem getLast?_trimNeutral (secondary : List UInt8) :
    (trimNeutral secondary).getLast? ≠ some 2 := by
  rw [trimNeutral, List.getLast?_reverse]
  intro h
  have hfalse := List.head?_dropWhile_not (fun nibble : UInt8 => decide (nibble = 2))
    secondary.reverse
  rw [h] at hfalse
  simp at hfalse

/-- A component without its marker, and without the mask. -/
theorem IsText.unmasked (h : tables.IsText maximum direction.mask bytes entries) :
    (bytes.drop 1).map (· ^^^ direction.mask) = entries.map Prod.fst ++
      packNibbles 0 (0 :: (trimNeutral (tables.secondaries entries) ++ [0])) := by
  rw [h.bytes_eq, component_eq_map, ← List.map_drop, List.map_map]
  have hself : ((· ^^^ direction.mask) ∘ (· ^^^ direction.mask) : UInt8 → UInt8) = id :=
    (xor_involutive direction.mask).comp_self
  rw [hself, List.map_id]
  simp [component]

/-- The length of a text component. -/
theorem IsText.length_eq (h : tables.IsText maximum direction.mask bytes entries) :
    bytes.length = 1 + entries.length + ((trimNeutral (tables.secondaries entries)).length + 3) /
      2 := by
  rw [h.bytes_eq, component, List.length_append, List.length_cons, List.length_map, List.length_map,
    length_packed, List.length_append, List.length_cons, List.length_singleton]
  omega

/-- A text has at most two secondary weights for each character. -/
theorem IsText.length_trimNeutral_le (h : tables.IsText maximum direction.mask bytes entries) :
    (trimNeutral (tables.secondaries entries)).length ≤ 2 * maximum.toNat := by
  refine ((trimNeutral_initial _).length_le.trans ?_).trans h.length_le
  rw [secondaries, List.length_map]
  exact List.length_filter_le _ _

/-- The nibbles behind the weights, their first half apart. -/
theorem IsText.halves_eq (h : tables.IsText maximum direction.mask bytes entries) :
    halves (packNibbles 0 (0 :: (trimNeutral (tables.secondaries entries) ++ [0]))) =
      0 :: (trimNeutral (tables.secondaries entries) ++ (0 :: if
        (trimNeutral (tables.secondaries entries)).length % 2 = 1 then [0] else [])) := by
  have hnibbles : ∀ nibble ∈ 0 :: (trimNeutral (tables.secondaries entries) ++ [0]), nibble <
    16 := by
    simp only [List.mem_cons, List.mem_append, List.not_mem_nil, or_false]
    rintro nibble (rfl | hmem | rfl)
    · decide
    · exact (isWeight_of_mem_secondaries h.fits ((trimNeutral_initial _).subset hmem)).2
    · decide
  rw [halves_packNibbles hnibbles]
  simp only [List.length_cons, List.length_append, List.length_nil, List.cons_append,
    List.append_assoc, List.nil_append, Nat.zero_add, Nat.add_assoc, Nat.add_mod_right]

/-- The secondary weights start with a byte below all primary ones. -/
theorem IsText.head_lt (h : tables.IsText maximum direction.mask bytes entries) :
    ∃ first rest, packNibbles 0 (0 :: (trimNeutral (tables.secondaries entries) ++ [0])) =
      first :: rest ∧
      first < 16 :=
  head_packNibbles fun _ hmem =>
    isWeight_of_mem_secondaries h.fits ((trimNeutral_initial _).subset hmem)

/-- A whole text is accepted, whatever follows it. -/
theorem IsText.prefixOf_component (hcosts : tables.Costs)
    (h : tables.IsText maximum direction.mask bytes entries) (tail : List UInt8) :
    tables.prefixOf (bytes ++ tail) maximum direction = some (.complete bytes.length) := by
  have hlength := h.length_eq
  obtain ⟨first, rest, hpacked, hfirst⟩ := h.head_lt
  have hkey : ((bytes ++ tail).drop 1).map (· ^^^ direction.mask) = entries.map Prod.fst ++
      (packNibbles 0 (0 :: (trimNeutral (tables.secondaries entries) ++ [0])) ++
        tail.map (· ^^^ direction.mask)) := by
    rw [List.drop_append_of_le_length (by omega), List.map_append, h.unmasked, List.append_assoc]
  rw [prefixOf_eq hkey (by
    rw [hpacked, List.cons_append, List.head?_cons]
    rintro byte ⟨⟩
    exact hfirst) h.fits h.length_le, halves_append, h.halves_eq, List.cons_append, List.drop_one,
    List.tail_cons, List.append_assoc]
  obtain ⟨taken, others, hentries, hscan⟩ := @scan_append tables maximum.toNat entries [] _ 0
    (2 * (1 + entries.length) + 1) h.fits (trimNeutral_initial (tables.secondaries entries))
      ((0 :: if
      (trimNeutral (tables.secondaries entries)).length % 2 = 1 then [0] else []) ++
        halves (tail.map (· ^^^ direction.mask)))
  have hbytes := Spelled.sourceBytes_reset_le hcosts (hentries ▸ h.spelled)
  have hlast := getLast?_trimNeutral (tables.secondaries entries)
  rw [hscan, List.cons_append, scan, if_pos rfl, if_neg, Option.some.injEq,
    KeyPrefix.complete.injEq]
  · omega
  · rintro (htwo | ⟨heven, hpadding⟩ | hlong)
    · -- the last nibble that is written is not neutral
      cases hsome : (trimNeutral (tables.secondaries entries)).getLast? with
      | none =>
        rw [hsome] at htwo
        exact absurd htwo (by decide)
      | some nibble =>
        rw [hsome, Option.getD_some] at htwo
        exact hlast (hsome.trans (congrArg some htwo))
    · rw [if_pos (by omega)] at hpadding
      simp at hpadding
    · rw [List.nil_append] at hlong
      omega

theorem halves_take (bytes : List UInt8) (count : ℕ) :
    halves (bytes.take count) = (halves bytes).take (2 * count) := by
  have hsplit := congrArg halves (List.take_append_drop count bytes)
  rw [halves_append] at hsplit
  rcases Nat.le_total count bytes.length with hle | hge
  · rw [← hsplit, List.take_left']
    rw [length_halves, List.length_take]
    omega
  · rw [List.take_of_length_le hge, List.take_of_length_le]
    rw [length_halves]
    omega

/-- A text that is cut is accepted as a part of one. -/
theorem IsText.prefixOf_take (hcosts : tables.Costs)
    (h : tables.IsText maximum direction.mask bytes entries) {count : ℕ}
    (hlt : count < bytes.length) :
    tables.prefixOf (bytes.take count) maximum direction = some (.cut (3 * maximum.toNat + 2)) := by
  have hlength := h.length_eq
  obtain ⟨first, rest, hpacked, hfirst⟩ := h.head_lt
  have hkey : ((bytes.take count).drop 1).map (· ^^^ direction.mask) =
      (entries.take (count - 1)).map Prod.fst ++
        (packNibbles 0 (0 :: (trimNeutral (tables.secondaries entries) ++ [0]))).take
          (count - 1 - entries.length) := by
    rw [List.drop_take, List.map_take, h.unmasked, List.take_append, List.length_map, List.map_take]
  have hhead :
    ∀ byte ∈ ((packNibbles 0 (0 :: (trimNeutral (tables.secondaries entries) ++ [0]))).take
      (count - 1 - entries.length)).head?, byte < 16 := by
    rw [hpacked, List.head?_take]
    intro byte hbyte
    split at hbyte
    · cases hbyte
    · cases hbyte
      exact hfirst
  rw [prefixOf_eq hkey hhead (fun entry hentry => h.fits entry (List.mem_of_mem_take hentry))
    (by
      have hle := h.length_le
      rw [List.length_take]
      omega), halves_take, h.halves_eq]
  have hspelled := h.spelled.take hcosts (count - 1)
  rcases Nat.le_total (count - 1) entries.length with hle | hge
  · -- the cut is among the weights
    have hbytes := @Spelled.sourceBytes_reset_le tables hcosts _ [] _ hspelled
    rw [Nat.sub_eq_zero_of_le hle, Nat.mul_zero, List.take_zero, List.drop_nil, scan, if_neg]
    rw [List.nil_append] at hbytes ⊢
    omega
  · -- the cut is among the secondary weights
    rw [List.take_of_length_le hge]
    have hshort : 2 * (count - 1 - entries.length) ≤
        1 + (trimNeutral (tables.secondaries entries)).length := by omega
    have hnibbles : ((0 :: (trimNeutral (tables.secondaries entries) ++ (0 :: if
        (trimNeutral (tables.secondaries entries)).length % 2 = 1 then [0] else []))).take
          (2 * (count - 1 - entries.length))).drop 1 =
        (trimNeutral (tables.secondaries entries)).take (2 * (count - 1 - entries.length) - 1) ++
          [] := by
      rw [List.drop_take, List.drop_one, List.tail_cons, List.take_append_of_le_length (by omega),
        List.append_nil]
    rw [hnibbles]
    obtain ⟨taken, others, hentries, hscan⟩ := @scan_append tables maximum.toNat entries []
      ((trimNeutral (tables.secondaries entries)).take (2 * (count - 1 - entries.length) - 1)) 0
      (2 * (1 + entries.length) + 1) h.fits
      ((List.take_prefix _ _).trans (trimNeutral_initial (tables.secondaries entries))) []
    have hbytes := Spelled.sourceBytes_reset_le hcosts (hentries ▸ h.spelled)
    rw [hscan, scan, if_neg]
    rw [List.nil_append]
    omega

end Component

end ComponentTables

end Jet3.Text
