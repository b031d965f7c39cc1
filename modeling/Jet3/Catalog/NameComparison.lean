import Jet3.Catalog.NameOrder

/-!
# Comparing names that need not pass the grammar

Equal names have one key, whatever bytes they hold. The converse fails for plain names alone: these
are compared without their keys, and control characters share a weight. So the comparison is
symmetric, and it is transitive unless it goes from a plain name to another over one that is not
plain.
-/

namespace Jet3

open Outcome

/-- A name that is compared with others of its kind without the keys. -/
def plainName (order : SortOrder) (name : List UInt8) : Bool :=
  order = .general ∧ isAscii name ∧ ¬endsWithSpace name

/-- Two names are compared byte by byte where both are plain. -/
theorem comparesPlainly_iff {order : SortOrder} {a b : List UInt8} :
    comparesPlainly order a b = true ↔ plainName order a = true ∧ plainName order b = true := by
  simp only [comparesPlainly, plainName, decide_eq_true_eq]
  tauto

namespace Text

/-- An ASCII byte and its lower case carry no accent. -/
theorem accent_asciiLowercase {byte : UInt8} (h : byte < 0x80) :
    accent (LocaleText.asciiLowercase byte) = accent byte := by
  obtain hsame | ⟨n, hn, rfl, hlower⟩ := LocaleText.asciiLowercase_cases byte
  · rw [hsame]
  · have hletter : UInt8.ofNat (0x61 + n) < 0x80 := by
      rw [UInt8.lt_iff_toNat_lt, UInt8.toNat_ofNat_of_lt' (by change _ < 256; omega)]
      change _ < 128
      omega
    rw [hlower, accent_of_ascii h, accent_of_ascii hletter]

/-- Lower case moves no byte to or from the space. -/
theorem asciiLowercase_eq_space_iff (byte : UInt8) :
    LocaleText.asciiLowercase byte = 0x20 ↔ byte = 0x20 := by
  obtain hsame | ⟨n, hn, rfl, hlower⟩ := LocaleText.asciiLowercase_cases byte
  · rw [hsame]
  · have hletters : ∀ n < 26, UInt8.ofNat (0x61 + n) ≠ 0x20 ∧ UInt8.ofNat (0x41 + n) ≠ 0x20 := by
      decide
    rw [hlower]
    exact iff_of_false (hletters n hn).1 (hletters n hn).2

/-- Spaces at the end are the same in lower case. -/
theorem trimSpaces_asciiLowercase (name : List UInt8) :
    trimSpaces (name.map LocaleText.asciiLowercase) =
      (trimSpaces name).map LocaleText.asciiLowercase := by
  have hspace : (fun byte : UInt8 => decide (byte = 0x20)) ∘ LocaleText.asciiLowercase =
      fun byte => decide (byte = 0x20) := by
    funext byte
    exact decide_eq_decide.mpr (asciiLowercase_eq_space_iff byte)
  rw [trimSpaces, trimSpaces, ← List.map_reverse, List.dropWhile_map, hspace, ← List.map_reverse]

/-- Case does not matter to the key of an ASCII name. -/
theorem encode_asciiLowercase {name : List UInt8} (h : isAscii name = true) (maximum : UInt8)
    (direction : IndexDirection) :
    encode (name.map LocaleText.asciiLowercase) maximum direction =
      encode name maximum direction := by
  have hbytes : ∀ byte ∈ trimSpaces name,
      primary (LocaleText.asciiLowercase byte) = primary byte ∧
        accent (LocaleText.asciiLowercase byte) = accent byte := by
    intro byte hbyte
    rw [isAscii, List.all_eq_true] at h
    refine ⟨primary_asciiLowercase byte, accent_asciiLowercase (of_decide_eq_true (h byte ?_))⟩
    rw [trimSpaces, List.mem_reverse] at hbyte
    exact List.mem_reverse.mp ((List.dropWhile_sublist _).subset hbyte)
  have hany : (trimSpaces name).any (fun byte =>
      decide (primary (LocaleText.asciiLowercase byte) = 0)) =
      (trimSpaces name).any fun byte => decide (primary byte = 0) := by
    rw [Bool.eq_iff_iff, List.any_eq_true, List.any_eq_true]
    refine exists_congr fun byte => and_congr_right fun hbyte => ?_
    rw [(hbytes byte hbyte).1]
  have hprimary : ((trimSpaces name).flatMap fun byte =>
      weightBytes (primary (LocaleText.asciiLowercase byte))) =
      (trimSpaces name).flatMap fun byte => weightBytes (primary byte) :=
    List.flatMap_congr fun byte hbyte => by rw [(hbytes byte hbyte).1]
  have hsecondary : ((trimSpaces name).flatMap fun byte =>
      ((weightBytes (primary (LocaleText.asciiLowercase byte))).filter accentedPrimary).map
        fun _ => (accent (LocaleText.asciiLowercase byte)).getD 2) =
      (trimSpaces name).flatMap fun byte =>
        ((weightBytes (primary byte)).filter accentedPrimary).map fun _ =>
          (accent byte).getD 2 :=
    List.flatMap_congr fun byte hbyte => by rw [(hbytes byte hbyte).1, (hbytes byte hbyte).2]
  simp only [encode, List.length_map, trimSpaces_asciiLowercase, List.any_map, List.flatMap_map,
    Function.comp_def, hany, hprimary, hsecondary]

end Text

/-- The key of an ASCII name in the General order. -/
theorem nameKey_of_isAscii {name : List UInt8} (h : isAscii name = true)
    (hlength : name.length ≤ 64) :
    ∃ key, nameKey name .general = .ok key ∧ Text.encode name 64 .ascending = some key := by
  have hmapped : ∀ byte ∈ name, mappedCharacter .windows1252 byte = some byte.toNat := by
    intro byte hbyte
    rw [isAscii, List.all_eq_true] at h
    exact if_pos (of_decide_eq_true (h byte hbyte))
  obtain ⟨key, hkey⟩ := @encode_of_mapped name .general .windows1252 hlength rfl
    fun byte hbyte => by
    rw [hmapped byte hbyte]
    rfl
  refine ⟨key, ?_, hkey⟩
  simp only [nameKey, bind_ok_iff, exists_unit, refuseIf_ok_iff, forM_ok_iff, okOr_ok_iff, not_lt,
    gt_iff_lt, Bool.not_eq_true]
  refine ⟨hlength, fun entry hentry => ?_, hkey⟩
  have hmem := List.mem_of_getElem? (List.mem_zipIdx_iff_getElem?.mp hentry)
  simp [unmappedByte, SortOrder.codePage, hmapped entry.1 hmem]

/-- A name that has a key is not too long. -/
theorem length_of_nameKey {name key : List UInt8} {order : SortOrder}
    (h : nameKey name order = .ok key) : name.length ≤ 64 := by
  simp only [nameKey, bind_ok_iff, exists_unit, refuseIf_ok_iff, not_lt, gt_iff_lt] at h
  exact h.1

/-- Names are equal exactly where they have one key and, if both are plain, the same letters. -/
theorem catalogNamesEqual_iff_nameKey {order : SortOrder} {a b : List UInt8} :
    catalogNamesEqual a b order = true ↔
      (∃ key, nameKey a order = .ok key ∧ nameKey b order = .ok key) ∧
        (plainName order a = true → plainName order b = true → eqIgnoreAsciiCase a b = true) := by
  by_cases hlength : a.length ≤ 64 ∧ b.length ≤ 64
  · rw [catalogNamesEqual, if_neg (not_or.mpr ⟨not_lt.mpr hlength.1, not_lt.mpr hlength.2⟩)]
    split
    next hplain =>
      have hplain' := comparesPlainly_iff.mp hplain
      simp only [plainName, decide_eq_true_eq] at hplain'
      obtain ⟨⟨rfl, haascii, haspace⟩, -, hbascii, hbspace⟩ := hplain'
      refine ⟨fun hequal => ⟨?_, fun _ _ => hequal⟩, fun h => ?_⟩
      · obtain ⟨key, hkey, hencode⟩ := nameKey_of_isAscii haascii hlength.1
        obtain ⟨key', hkey', hencode'⟩ := nameKey_of_isAscii hbascii hlength.2
        refine ⟨key, hkey, hkey'.trans (congrArg _ (Option.some.inj ?_))⟩
        rw [← hencode, ← hencode', ← Text.encode_asciiLowercase haascii,
          ← Text.encode_asciiLowercase hbascii, of_decide_eq_true hequal]
      · exact h.2 (by simp [plainName, haascii, haspace]) (by simp [plainName, hbascii, hbspace])
    next hplain =>
      have hnot : ¬(plainName order a = true ∧ plainName order b = true) :=
        fun h => hplain (comparesPlainly_iff.mpr h)
      rcases ha : nameKey a order with error | key <;> rcases hb : nameKey b order with error | key'
        <;> simp
      exact ⟨fun heq => ⟨heq.symm, fun hpa hpb => absurd ⟨hpa, hpb⟩ hnot⟩, fun h => h.1.symm⟩
  · rw [catalogNamesEqual, if_pos (by omega)]
    refine iff_of_false (by decide) ?_
    rintro ⟨⟨key, ha, hb⟩, -⟩
    exact hlength ⟨length_of_nameKey ha, length_of_nameKey hb⟩

theorem eqIgnoreAsciiCase_trans {a b c : List UInt8} (h : eqIgnoreAsciiCase a b = true)
    (h' : eqIgnoreAsciiCase b c = true) : eqIgnoreAsciiCase a c = true := by
  rw [eqIgnoreAsciiCase, decide_eq_true_eq] at h h' ⊢
  exact h.trans h'

theorem catalogNamesEqual_comm (a b : List UInt8) (order : SortOrder) :
    catalogNamesEqual a b order = catalogNamesEqual b a order := by
  have hcase : eqIgnoreAsciiCase a b = eqIgnoreAsciiCase b a :=
    decide_eq_decide.mpr eq_comm
  rw [Bool.eq_iff_iff, catalogNamesEqual_iff_nameKey, catalogNamesEqual_iff_nameKey, hcase]
  exact and_congr (exists_congr fun _ => and_comm) forall_comm

/-- Equality passes over a plain name, and to or from a name that is not plain. -/
theorem catalogNamesEqual_trans {order : SortOrder} {a b c : List UInt8}
    (h : catalogNamesEqual a b order = true) (h' : catalogNamesEqual b c order = true)
    (hplain : plainName order a = true → plainName order c = true → plainName order b = true) :
    catalogNamesEqual a c order = true := by
  rw [catalogNamesEqual_iff_nameKey] at h h' ⊢
  obtain ⟨⟨key, ha, hb⟩, hcase⟩ := h
  obtain ⟨⟨key', hb', hc⟩, hcase'⟩ := h'
  rw [hb] at hb'
  obtain rfl := Except.ok.inj hb'
  refine ⟨⟨key, ha, hc⟩, fun hpa hpc => ?_⟩
  have hpb := hplain hpa hpc
  exact eqIgnoreAsciiCase_trans (hcase hpa hpb) (hcase' hpb hpc)

/-- A name equal to one that passes the grammar has its component as key. -/
theorem nameKey_of_equal {order : SortOrder} {a b : List UInt8}
    (hb : validateCatalogName b order = .ok ()) (h : catalogNamesEqual a b order = true) :
    nameKey a order = .ok (nameComponent order b) := by
  obtain ⟨⟨key, ha, hkey⟩, -⟩ := catalogNamesEqual_iff_nameKey.mp h
  rw [nameKey_of_valid hb] at hkey
  rw [ha, hkey]

/-- Of two names of one key that are not both plain, each equals the other. -/
theorem catalogNamesEqual_of_nameKey {order : SortOrder} {a b key : List UInt8}
    (ha : nameKey a order = .ok key) (hb : nameKey b order = .ok key)
    (hplain : plainName order a = true → plainName order b = false) :
    catalogNamesEqual a b order = true :=
  catalogNamesEqual_iff_nameKey.mpr ⟨⟨key, ha, hb⟩, fun hpa hpb => by
    rw [hplain hpa] at hpb
    cases hpb⟩

end Jet3
