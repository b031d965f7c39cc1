import Jet3.Catalog.NameKey
import Jet3.Index.Key.Order

/-!
# Equal names have equal keys

A name that passes the grammar has a key, and two of them are equal exactly where their keys are.

* `primary_plain_iff` compares the weights of two plain ASCII bytes: the shortcut of the comparison
  rests on it;
* `catalogNames_agree` is the agreement of the comparison, the keys, and the checks of names.
-/

namespace Jet3

open Outcome

open scoped ByteOrder

/-! ## Names that pass the grammar -/

/-- What a valid name is. -/
theorem validateCatalogName_ok_iff {name : List UInt8} {order : SortOrder} :
    validateCatalogName name order = .ok () ↔
      name ≠ [] ∧ name.length ≤ 64 ∧ name.head? ≠ some 0x20 ∧
        ∀ byte ∈ name, supportedNameByteFor byte order = true := by
  simp only [validateCatalogName, bind_ok_iff, exists_unit, refuseIf_ok_iff, forM_ok_iff, not_lt,
    gt_iff_lt, List.isEmpty_iff, ne_eq, Bool.not_eq_false]
  refine and_congr_right fun _ => and_congr_right fun _ => and_congr_right fun _ => ?_
  constructor
  · intro h byte hbyte
    obtain ⟨position, hposition⟩ := List.mem_iff_getElem?.mp hbyte
    exact h (byte, position) (List.mem_zipIdx_iff_getElem?.mpr hposition)
  · exact fun h entry hentry =>
      h entry.1 (List.mem_of_getElem? (List.mem_zipIdx_iff_getElem?.mp hentry))

/-- A supported byte is mapped by the code page of a known order. -/
theorem supported_mapped {byte : UInt8} {order : SortOrder}
    (h : supportedNameByteFor byte order = true) :
    ∃ page, order.codePage = some page ∧ (mappedCharacter page byte).isSome = true := by
  simp only [supportedNameByteFor, decide_eq_true_eq, Option.any_eq_true] at h
  obtain ⟨-, -, page, hpage, hmapped⟩ := h
  exact ⟨page, hpage, hmapped⟩

namespace Text

/-- The weight of a byte from some byte on. -/
theorem getElem?_drop_primary {byte : UInt8} {n : ℕ} (h : n ≤ byte.toNat) :
    (TextWeights.primary.drop n)[byte.toNat - n]? = some (primary byte) := by
  have hbound : byte.toNat < TextWeights.primary.length := by
    rw [weighted.length]
    exact byte.toNat_lt
  rw [List.getElem?_drop, Nat.add_sub_cancel' h, List.getElem?_eq_getElem hbound, primary,
    List.getD_eq_getElem _ _ hbound]

/-- Every character of the General code page has a weight. -/
theorem primary_ne_zero {byte : UInt8} (h : (mappedCharacter .windows1252 byte).isSome = true) :
    primary byte ≠ 0 := by
  rcases Nat.lt_or_ge byte.toNat 128 with hlt | hge
  · have hweight : (TextWeights.primary.take 128)[byte.toNat]? = some (primary byte) := by
      rw [List.getElem?_take_of_lt hlt]
      exact getElem?_drop_primary (Nat.zero_le _)
    exact weighted.ascii _ (List.mem_of_getElem? hweight)
  · have hbyte : ¬byte < 0x80 := by
      rw [UInt8.lt_iff_toNat_lt]
      exact not_lt.mpr hge
    have hmapped : cp1252.getD (byte.toNat - 0x80) undefinedScalar ≠ undefinedScalar := by
      intro hzero
      have hnone : mappedCharacter .windows1252 byte = none := by
        rw [mappedCharacter, if_neg hbyte]
        exact if_neg (not_not.mpr hzero)
      rw [hnone] at h
      cases h
    rw [List.getD_eq_getElem?_getD] at hmapped
    rcases hscalar : cp1252[byte.toNat - 0x80]? with _ | scalar
    · rw [hscalar] at hmapped
      exact absurd rfl hmapped
    · rw [hscalar] at hmapped
      have hpair : (cp1252.zip (TextWeights.primary.drop 128))[byte.toNat - 0x80]? =
          some (scalar, primary byte) :=
        List.getElem?_zip_eq_some.mpr ⟨hscalar, getElem?_drop_primary hge⟩
      exact weighted.mapped _ (List.mem_of_getElem? hpair) hmapped

/-- A byte weighs what its lower case weighs. -/
theorem primary_asciiLowercase (byte : UInt8) :
    primary (LocaleText.asciiLowercase byte) = primary byte := by
  obtain hsame | ⟨n, hn, rfl, hlower⟩ := LocaleText.asciiLowercase_cases byte
  · rw [hsame]
  · rw [hlower, weighted.letters n hn]

/-! ## Plain names of the General order -/

/-- An ASCII byte of a name. -/
def plainByte (byte : UInt8) : Bool :=
  byte < 0x80 && supportedNameByteFor byte .general

/-- A plain byte is a printable ASCII character. -/
theorem plainByte_bounds {byte : UInt8} (h : plainByte byte = true) :
    32 ≤ byte.toNat ∧ byte.toNat < 127 := by
  simp only [plainByte, supportedNameByteFor, Bool.and_eq_true, decide_eq_true_eq, List.mem_cons,
    not_or, UInt8.lt_iff_toNat_lt, UInt8.le_iff_toNat_le, ← UInt8.toNat_inj] at h
  obtain ⟨hascii, hcontrol, ⟨-, -, -, -, -, hdelete, -⟩, -⟩ := h
  exact ⟨hcontrol, lt_of_le_of_ne (Nat.le_of_lt_succ hascii) hdelete⟩

/-- What a plain byte weighs, and that it carries no accent. -/
theorem weightBytes_plain {byte : UInt8} (h : plainByte byte = true) :
    weightBytes (primary byte) = [UInt8.ofNat (primary byte)] ∧ primary byte < 256 ∧
      accent byte = none := by
  obtain ⟨hge, hlt⟩ := plainByte_bounds h
  have hweight : ((TextWeights.primary.drop 32).take 95)[byte.toNat - 32]? =
      some (primary byte) := by
    rw [List.getElem?_take_of_lt (by omega)]
    exact getElem?_drop_primary hge
  obtain ⟨hbytes, hbound⟩ := weighted.plain _ (List.mem_of_getElem? hweight)
  exact ⟨hbytes, hbound, accent_of_ascii (of_decide_eq_true (Bool.and_eq_true_iff.mp h).1)⟩

/-- Plain bytes weigh the same exactly where they differ in case only. -/
theorem primary_plain_iff {a b : UInt8} (ha : plainByte a = true) (hb : plainByte b = true) :
    primary a = primary b ↔ LocaleText.asciiLowercase a = LocaleText.asciiLowercase b := by
  obtain ⟨hgea, hlta⟩ := plainByte_bounds ha
  obtain ⟨hgeb, hltb⟩ := plainByte_bounds hb
  have hbytea := weighted.lower a.toNat hlta hgea
  have hbyteb := weighted.lower b.toNat hltb hgeb
  rw [UInt8.ofNat_toNat] at hbytea hbyteb
  constructor
  · intro h
    have hweights : TextWeights.primary.getD a.toNat 0 = TextWeights.primary.getD b.toNat 0 := h
    rw [← UInt8.toNat_inj, ← hbytea, ← hbyteb, hweights]
  · intro h
    rw [← primary_asciiLowercase a, ← primary_asciiLowercase b, h]

end Text

/-! ## Keys -/

/-- The component of a name in the General order or one of the others. -/
def nameComponent (order : SortOrder) (name : List UInt8) : List UInt8 :=
  Text.component 0 (LocaleText.sortWeights order name).1 (LocaleText.sortWeights order name).2

/-- Characters that are mapped are encoded. -/
theorem encode_of_mapped {name : List UInt8} {order : SortOrder} {page : TextCodePage}
    (hlength : name.length ≤ 64) (hpage : order.codePage = some page)
    (hmapped : ∀ byte ∈ name, (mappedCharacter page byte).isSome = true) :
    ∃ key, LocaleText.encode name 64 .ascending order = some key := by
  have hshort : ¬name.length > (64 : UInt8).toNat := not_lt.mpr hlength
  by_cases hgeneral : order = .general
  · subst hgeneral
    cases hpage
    rw [LocaleText.encode, if_pos rfl, Text.encode, if_neg hshort]
    refine ⟨_, if_neg ?_⟩
    rw [List.any_eq_true]
    rintro ⟨byte, hbyte, hzero⟩
    have hmem : byte ∈ name := by
      rw [Text.trimSpaces, List.mem_reverse] at hbyte
      exact List.mem_reverse.mp ((List.dropWhile_sublist _).subset hbyte)
    exact Text.primary_ne_zero (hmapped byte hmem) (of_decide_eq_true hzero)
  · obtain ⟨tables, htables⟩ : ∃ tables, LocaleText.weights order = some tables := by
      cases order <;> first | exact absurd rfl hgeneral | exact ⟨_, rfl⟩ | cases hpage
    rw [LocaleText.encode, if_neg hgeneral, if_neg hshort, htables, hpage]
    refine ⟨_, if_neg ?_⟩
    rw [List.any_eq_true]
    rintro ⟨byte, hbyte, hnone⟩
    rw [Option.isNone_iff_eq_none] at hnone
    have hsome := hmapped byte hbyte
    rw [hnone] at hsome
    cases hsome

/-- A name that passes the grammar has a key. -/
theorem nameKey_of_valid {name : List UInt8} {order : SortOrder}
    (h : validateCatalogName name order = .ok ()) :
    nameKey name order = .ok (nameComponent order name) := by
  obtain ⟨hne, hlength, -, hbytes⟩ := validateCatalogName_ok_iff.mp h
  obtain ⟨page, hpage⟩ : ∃ page, order.codePage = some page := by
    obtain ⟨byte, rest, rfl⟩ := List.exists_cons_of_ne_nil hne
    obtain ⟨page, hpage, -⟩ := supported_mapped (hbytes byte List.mem_cons_self)
    exact ⟨page, hpage⟩
  have hmapped : ∀ byte ∈ name, (mappedCharacter page byte).isSome = true := by
    intro byte hbyte
    obtain ⟨page', hpage', hmapped⟩ := supported_mapped (hbytes byte hbyte)
    rw [hpage] at hpage'
    cases hpage'
    exact hmapped
  obtain ⟨key, hkey⟩ := encode_of_mapped hlength hpage hmapped
  have hcomponent : key = nameComponent order name := ScalarKeyType.encode_eq_component hkey
  simp only [nameKey, bind_ok_iff, exists_unit, refuseIf_ok_iff, forM_ok_iff, okOr_ok_iff, not_lt,
    gt_iff_lt, Bool.not_eq_true]
  refine ⟨hlength, fun entry hentry => ?_, by rw [hkey, hcomponent]⟩
  have hmem := List.mem_of_getElem? (List.mem_zipIdx_iff_getElem?.mp hentry)
  rw [unmappedByte, hpage, Option.all_some, Option.isNone_eq_false_iff]
  exact hmapped entry.1 hmem

/-- Components are equal exactly where the primary weights are, and the secondary weights up to the
neutral ones at their end. -/
theorem nameComponent_eq_iff {order : SortOrder} {a b : List UInt8} :
    nameComponent order a = nameComponent order b ↔
      (LocaleText.sortWeights order a).1 = (LocaleText.sortWeights order b).1 ∧
        Text.trimNeutral (LocaleText.sortWeights order a).2 =
          Text.trimNeutral (LocaleText.sortWeights order b).2 := by
  obtain ⟨hprimary, hsecondary⟩ := ScalarKeyType.sortWeights_isWeight order a
  obtain ⟨hprimary', hsecondary'⟩ := ScalarKeyType.sortWeights_isWeight order b
  constructor
  · intro h
    have hcompare := compareBytes_eq_iff.mpr h
    rw [nameComponent, nameComponent,
      Text.compare_component hprimary hprimary' hsecondary hsecondary'
      (ScalarKeyType.length_sortWeights order a b), Ordering.then_eq_eq, compareBytes_eq_iff,
      compareBytes_eq_iff] at hcompare
    exact ⟨hcompare.1, congrArg _ hcompare.2⟩
  · rintro ⟨h, htrim⟩
    rw [nameComponent, nameComponent, Text.component, Text.component, h, htrim]

/-! ## The comparison of plain names -/

/-- Lists with equal images under one function have equal images under a coarser one. -/
theorem map_eq_of_map_eq {α β γ : Type} {P : α → Prop} {f : α → β} {g : α → γ}
    (hcoarser : ∀ x y, P x → P y → f x = f y → g x = g y) {a b : List α} (ha : ∀ x ∈ a, P x)
    (hb : ∀ y ∈ b, P y) (h : a.map f = b.map f) : a.map g = b.map g := by
  induction a generalizing b with
  | nil =>
    rw [List.map_nil, eq_comm, List.map_eq_nil_iff] at h
    rw [h]
  | cons x a ih =>
    obtain ⟨y, b, rfl⟩ : ∃ y rest, b = y :: rest := by
      cases b with
      | nil => cases h
      | cons y rest => exact ⟨y, rest, rfl⟩
    rw [List.map_cons, List.map_cons, List.cons.injEq] at h
    rw [List.forall_mem_cons] at ha hb
    rw [List.map_cons, List.map_cons, hcoarser x y ha.1 hb.1 h.1, ih ha.2 hb.2 h.2]

/-- A name that does not end in a space keeps all its bytes. -/
theorem trimSpaces_of_not_endsWithSpace {name : List UInt8} (h : endsWithSpace name = false) :
    Text.trimSpaces name = name := by
  rw [endsWithSpace, decide_eq_false_iff_not] at h
  rcases List.eq_nil_or_concat name with rfl | ⟨front, last, rfl⟩
  · rfl
  · rw [List.concat_eq_append] at h ⊢
    have hlast : ¬decide (last = 0x20) = true := by simpa using h
    rw [Text.trimSpaces, List.reverse_append, List.reverse_singleton, List.singleton_append,
      List.dropWhile_cons, if_neg hlast, List.reverse_cons, List.reverse_reverse]

/-- A plain name weighs what its bytes weigh, without an accent. -/
theorem sortWeights_plain {name : List UInt8} (hplain : ∀ byte ∈ name, Text.plainByte byte = true)
    (hspace : endsWithSpace name = false) :
    LocaleText.sortWeights .general name =
      ((name.map Text.primary).map UInt8.ofNat,
        (name.map Text.primary).flatMap fun weight =>
          ((Text.weightBytes weight).filter Text.accentedPrimary).map fun _ => 2) := by
  rw [LocaleText.sortWeights, trimSpaces_of_not_endsWithSpace hspace]
  refine Prod.ext ?_ ?_
  · show name.flatMap (fun byte => Text.weightBytes (Text.primary byte)) = _
    rw [List.map_map, List.map_eq_flatMap]
    exact List.flatMap_congr fun byte hbyte => (Text.weightBytes_plain (hplain byte hbyte)).1
  · show name.flatMap (fun byte =>
      ((Text.weightBytes (Text.primary byte)).filter Text.accentedPrimary).map fun _ =>
        (Text.accent byte).getD 2) = _
    rw [List.flatMap_map]
    refine List.flatMap_congr fun byte hbyte => ?_
    rw [(Text.weightBytes_plain (hplain byte hbyte)).2.2]
    rfl

/-- Plain names are equal but for case exactly where their components are. -/
theorem eqIgnoreAsciiCase_iff {a b : List UInt8} (ha : ∀ byte ∈ a, Text.plainByte byte = true)
    (hb : ∀ byte ∈ b, Text.plainByte byte = true) (haspace : endsWithSpace a = false)
    (hbspace : endsWithSpace b = false) :
    eqIgnoreAsciiCase a b = true ↔ nameComponent .general a = nameComponent .general b := by
  rw [eqIgnoreAsciiCase, decide_eq_true_eq]
  constructor
  · intro h
    have hweights : a.map Text.primary = b.map Text.primary :=
      map_eq_of_map_eq (fun x y hx hy heq => (Text.primary_plain_iff hx hy).mpr heq) ha hb h
    rw [nameComponent, nameComponent, sortWeights_plain ha haspace, sortWeights_plain hb hbspace,
      hweights]
  · intro h
    have hprimary := (nameComponent_eq_iff.mp h).1
    rw [sortWeights_plain ha haspace, sortWeights_plain hb hbspace, List.map_map, List.map_map]
      at hprimary
    refine map_eq_of_map_eq (fun x y hx hy heq => ?_) ha hb hprimary
    -- the weights fit a byte
    have hbytes := congrArg UInt8.toNat heq
    rw [Function.comp_apply, Function.comp_apply, UInt8.toNat_ofNat_of_lt'
      (Text.weightBytes_plain hx).2.1, UInt8.toNat_ofNat_of_lt' (Text.weightBytes_plain hy).2.1]
      at hbytes
    exact (Text.primary_plain_iff hx hy).mp hbytes

/-- Names that pass the grammar are equal exactly where their components are. -/
theorem catalogNamesEqual_iff {order : SortOrder} {a b : List UInt8}
    (ha : validateCatalogName a order = .ok ()) (hb : validateCatalogName b order = .ok ()) :
    catalogNamesEqual a b order = true ↔ nameComponent order a = nameComponent order b := by
  obtain ⟨-, halength, -, habytes⟩ := validateCatalogName_ok_iff.mp ha
  obtain ⟨-, hblength, -, hbbytes⟩ := validateCatalogName_ok_iff.mp hb
  rw [catalogNamesEqual, if_neg (not_or.mpr ⟨not_lt.mpr halength, not_lt.mpr hblength⟩)]
  split
  next hplain =>
    simp only [comparesPlainly, isAscii, decide_eq_true_eq, List.all_eq_true, Bool.not_eq_true]
      at hplain
    obtain ⟨rfl, haascii, hbascii, haspace, hbspace⟩ := hplain
    refine eqIgnoreAsciiCase_iff (fun byte hbyte => ?_) (fun byte hbyte => ?_) haspace hbspace
    · rw [Text.plainByte, Bool.and_eq_true]
      exact ⟨decide_eq_true (haascii byte hbyte), habytes byte hbyte⟩
    · rw [Text.plainByte, Bool.and_eq_true]
      exact ⟨decide_eq_true (hbascii byte hbyte), hbbytes byte hbyte⟩
  next =>
    rw [nameKey_of_valid ha, nameKey_of_valid hb]
    exact decide_eq_true_iff

/-! ## The index keys -/

namespace Text

theorem length_weightBytes_le (primary : ℕ) : (weightBytes primary).length ≤ 2 :=
  List.length_filter_le _ _

theorem length_packNibbles (mask : UInt8) (nibbles : List UInt8) :
    (packNibbles mask nibbles).length = (nibbles.length + 1) / 2 := by
  induction nibbles using packNibbles.induct with
  | case1 => rfl
  | case2 high => simp [packNibbles]
  | case3 high low rest ih =>
    rw [packNibbles, List.length_cons, ih, List.length_cons, List.length_cons]
    omega

/-- The component of a text: a marker, its primary weights, and two secondary weights to the
byte. -/
theorem length_component_le (mask : UInt8) (primary secondary : List UInt8) :
    (component mask primary secondary).length ≤
      1 + primary.length + (secondary.length + 3) / 2 := by
  have htrim : (trimNeutral secondary).length ≤ secondary.length := by
    rw [trimNeutral, List.length_reverse]
    exact ((List.dropWhile_sublist _).length_le).trans List.length_reverse.le
  rw [component, List.length_append, List.length_cons, List.length_map, length_packNibbles,
    List.length_append, List.length_cons, List.length_singleton]
  omega

end Text

/-- A text has at most one unit for each byte. -/
theorem LocaleText.length_units_le (order : SortOrder) (tables : Weights) (value : List UInt8) :
    (units order tables value).length ≤ value.length := by
  induction value using units.induct order with
  | case1 => rfl
  | case2 byte => rfl
  | case3 byte next rest weight hcontraction ih =>
    rw [units, hcontraction, List.length_cons, List.length_cons, List.length_cons]
    omega
  | case4 byte next rest hcontraction ih =>
    rw [units, hcontraction, List.length_cons]
    exact Nat.succ_le_succ ih

/-- Two weights a character, each with one secondary weight at most. -/
theorem LocaleText.length_sortWeights_le (order : SortOrder) (value : List UInt8) :
    (sortWeights order value).1.length ≤ 2 * value.length ∧
      (sortWeights order value).2.length ≤ 2 * value.length := by
  have htrim : (Text.trimSpaces value).length ≤ value.length := by
    rw [Text.trimSpaces, List.length_reverse]
    exact ((List.dropWhile_sublist _).length_le).trans List.length_reverse.le
  have hflat : ∀ {α : Type} (items : List α) (f : α → List UInt8), (∀ item, (f item).length ≤ 2) →
      (items.flatMap f).length ≤ 2 * items.length := by
    intro α items f hf
    induction items with
    | nil => simp
    | cons item items ih =>
      rw [List.flatMap_cons, List.length_append, List.length_cons]
      have := hf item
      omega
  have hfilter : ∀ (p : UInt8 → Bool) (weight : ℕ),
      ((Text.weightBytes weight).filter p).length ≤ 2 :=
    fun p weight => (List.length_filter_le _ _).trans (Text.length_weightBytes_le weight)
  unfold sortWeights
  rcases weights order with _ | tables
  · refine ⟨(hflat _ _ fun byte => Text.length_weightBytes_le _).trans (by omega),
      (hflat _ _ fun byte => ?_).trans (by omega)⟩
    rw [List.length_map]
    exact hfilter _ _
  · have hunits := length_units_le order tables (Text.trimSpaces value)
    refine ⟨(hflat _ _ fun unit => Text.length_weightBytes_le _).trans (by omega),
      (hflat _ _ fun unit => ?_).trans (by omega)⟩
    rw [List.length_map]
    exact hfilter _ _

/-- A component fits the buffer of a key. -/
theorem length_nameComponent_le (order : SortOrder) {name : List UInt8} (h : name.length ≤ 64) :
    (nameComponent order name).length ≤ maxCreationKeyBytes - longComponentLen := by
  obtain ⟨hprimary, hsecondary⟩ := LocaleText.length_sortWeights_le order name
  refine (Text.length_component_le _ _ _).trans ?_
  show _ ≤ 194
  omega

theorem length_parentComponent (parent : Int32) :
    (parentComponent parent).length = longComponentLen := by
  rw [parentComponent, List.length_cons, length_flipSign, length_beBytes]
  rfl

/-- A field is encoded as the component of its value. -/
theorem encodeField_of {values : List RowValue} {state : KeyAccumulator} {field : ScalarIndexField}
    {value : RowValue} {component : List UInt8} (hvalue : values[field.column]? = some value)
    (hcomponent : field.kind.encode value field.direction = some component) :
    ScalarIndexEntry.encodeField values state field =
      .ok { key := state.key ++ component, hasNull := state.hasNull || field.kind.isNull value
            allNull := state.allNull && field.kind.isNull value } := by
  rw [ScalarIndexEntry.encodeField, hvalue]
  show okOr (field.kind.encode value field.direction) _ >>= _ = _
  rw [hcomponent]
  rfl

/-- The index key of a name that passes the grammar is never shortened. -/
theorem catalogIndexKey_of_valid (parent : Int32) {name : List UInt8} {order : SortOrder}
    (h : validateCatalogName name order = .ok ()) :
    catalogIndexKey parent name order =
      some (parentComponent parent ++ nameComponent order name) := by
  obtain ⟨-, hlength, -, -⟩ := validateCatalogName_ok_iff.mp h
  have hkey := nameKey_of_valid h
  simp only [nameKey, bind_ok_iff, exists_unit, okOr_ok_iff] at hkey
  have hparent : ScalarKeyType.long.encode (.long parent) .ascending =
    some (parentComponent parent) := by
    have hmask : ∀ byte : UInt8, byte ^^^ IndexDirection.ascending.mask = byte := fun byte =>
      UInt8.xor_zero
    show some ((parentComponent parent).map (· ^^^ IndexDirection.ascending.mask)) = _
    rw [List.map_congr_left fun byte _ => hmask byte, List.map_id']
  -- both components together are short enough, so the key is not cut
  have hshort : (parentComponent parent ++ nameComponent order name).length ≤ maxKeyBytes := by
    have hname := length_nameComponent_le order hlength
    have hbuffer : maxCreationKeyBytes - longComponentLen = 194 := rfl
    have hparentLen : longComponentLen = 5 := rfl
    have hmaximum : maxKeyBytes = 255 := rfl
    rw [List.length_append, length_parentComponent]
    omega
  have hencode :
      ScalarIndexEntry.encode (catalogNameFields order) [.long parent, .text name] .include
        { page := 0, slot := 0 } =
        .ok (some { key := parentComponent parent ++ nameComponent order name
                    locator := { page := 0, slot := 0 }, hasNull := false }) := by
    have hname : (ScalarKeyType.text 64 order).encode (.text name) .ascending =
        some (nameComponent order name) := hkey.2.2
    -- the parent is encoded first, then the name
    have hfirst : ScalarIndexEntry.encodeField [.long parent, .text name]
        { key := [], hasNull := false, allNull := true }
        { column := 0, direction := .ascending, kind := .long } =
          .ok { key := parentComponent parent, hasNull := false, allNull := false } := by
      rw [encodeField_of rfl hparent]
      rfl
    have hsecond : ScalarIndexEntry.encodeField [.long parent, .text name]
        { key := parentComponent parent, hasNull := false, allNull := false }
        { column := 1, direction := .ascending, kind := .text 64 order } =
          .ok { key := parentComponent parent ++ nameComponent order name, hasNull := false
                allNull := false } := by
      rw [encodeField_of rfl hname]
      rfl
    have hfields : (catalogNameFields order).foldlM
        (ScalarIndexEntry.encodeField [.long parent, .text name])
        { key := [], hasNull := false, allNull := true } =
          .ok { key := parentComponent parent ++ nameComponent order name, hasNull := false
                allNull := false } := by
      rw [catalogNameFields]
      exact bind_ok_iff.mpr ⟨_, hfirst, bind_ok_iff.mpr ⟨_, hsecond, rfl⟩⟩
    simp only [ScalarIndexEntry.encode]
    refine bind_ok_iff.mpr ⟨(), rfl, bind_ok_iff.mpr ⟨(), rfl, bind_ok_iff.mpr ⟨_, hfields,
      bind_ok_iff.mpr ⟨(), rfl, ?_⟩⟩⟩⟩
    rw [if_neg (by simp), Binary.shorten, if_pos hshort]
    rfl
  rw [catalogIndexKey, hencode]

/-- Creation writes the key of the index into a buffer that holds it. -/
theorem encodeCatalogNameKey_of_valid (parent : Int32) {name : List UInt8}
    (h : validateCatalogName name .general = .ok ()) :
    ∃ key, encodeCatalogNameKey parent name maxCreationKeyBytes = .ok key ∧
      catalogIndexKey parent name .general = some key := by
  obtain ⟨-, hlength, -, -⟩ := validateCatalogName_ok_iff.mp h
  have hfits := length_nameComponent_le .general hlength
  refine ⟨_, ?_, catalogIndexKey_of_valid parent h⟩
  simp only [encodeCatalogNameKey, bind_ok_iff, exists_unit, refuseIf_ok_iff, pure_ok_iff, not_lt]
  refine ⟨h, _, nameKey_of_valid h, ?_, rfl⟩
  calc longComponentLen + (nameComponent .general name).length
      ≤ longComponentLen + (maxCreationKeyBytes - longComponentLen) := Nat.add_le_add_left hfits _
    _ = maxCreationKeyBytes := rfl

/-! ## Checks of names -/

/-- Every item stands apart from those before it. -/
theorem forall_zipIdx_take_iff {α : Type} {R : α → α → Prop} {items : List α} :
    (∀ entry ∈ items.zipIdx, ∀ earlier ∈ items.take entry.2, R earlier entry.1) ↔
      items.Pairwise R := by
  rw [List.pairwise_iff_getElem]
  constructor
  · intro h i j hi hj hij
    refine h (items[j], j) (List.mem_zipIdx_iff_getElem?.mpr (List.getElem?_eq_getElem hj)) _ ?_
    exact List.mem_take_iff_getElem.mpr ⟨i, by omega, rfl⟩
  · rintro h ⟨item, j⟩ hitem earlier hearlier
    have hget : items[j]? = some item := List.mem_zipIdx_iff_getElem?.mp hitem
    obtain ⟨hj, rfl⟩ := List.getElem?_eq_some_iff.mp hget
    obtain ⟨i, hi, rfl⟩ := List.mem_take_iff_getElem.mp hearlier
    exact h i j (by omega) hj (by omega)

/-- Two names that pass the grammar have different keys. -/
def DifferentKeys (order : SortOrder) (parent : Int32) (a b : List UInt8) : Prop :=
  catalogIndexKey parent a order ≠ catalogIndexKey parent b order

/-- Two valid names have different keys exactly where their components differ. -/
theorem differentKeys_iff (parent : Int32) {order : SortOrder} {a b : List UInt8}
    (ha : validateCatalogName a order = .ok ()) (hb : validateCatalogName b order = .ok ()) :
    DifferentKeys order parent a b ↔ nameComponent order a ≠ nameComponent order b := by
  rw [DifferentKeys, catalogIndexKey_of_valid parent ha, catalogIndexKey_of_valid parent hb, ne_eq,
    Option.some.injEq, List.append_cancel_left_eq]

/-- Names of one list that differ in pairs, by their components or by their keys. -/
theorem pairwise_differentKeys_iff (parent : Int32) {order : SortOrder} {names : List (List UInt8)}
    (hnames : ∀ name ∈ names, validateCatalogName name order = .ok ()) :
    names.Pairwise (DifferentKeys order parent) ↔
      names.Pairwise fun a b => nameComponent order a ≠ nameComponent order b := by
  constructor
  · exact fun h => h.imp_of_mem fun ha hb hab =>
      (differentKeys_iff parent (hnames _ ha) (hnames _ hb)).mp hab
  · exact fun h => h.imp_of_mem fun ha hb hab =>
      (differentKeys_iff parent (hnames _ ha) (hnames _ hb)).mpr hab

/-- A valid name is accepted where its component is new. -/
theorem validateDistinctName_ok_iff {order : SortOrder} {role : String} {ordinal : ℕ}
    {name : List UInt8} {earlier : List (List UInt8)}
    (hname : validateCatalogName name order = .ok ())
    (hearlier : ∀ other ∈ earlier, validateCatalogName other order = .ok ()) :
    validateDistinctName order role ordinal name earlier = .ok () ↔
      ∀ other ∈ earlier, nameComponent order other ≠ nameComponent order name := by
  rw [validateDistinctName, forM_ok_iff]
  refine forall₂_congr fun other hmem => ?_
  have hother := hearlier other hmem
  obtain ⟨-, hlength, -, -⟩ := validateCatalogName_ok_iff.mp hother
  rw [if_neg (not_lt.mpr hlength)]
  dsimp only
  rw [refuseIf_ok_iff, not_iff_not]
  by_cases hplain : comparesPlainly order name other = true
  · -- the shortcut is that of the comparison
    have hequal : eqIgnoreAsciiCase name other = catalogNamesEqual name other order := by
      obtain ⟨-, hnameLength, -, -⟩ := validateCatalogName_ok_iff.mp hname
      rw [catalogNamesEqual, if_neg (not_or.mpr ⟨not_lt.mpr hnameLength, not_lt.mpr hlength⟩),
        if_pos hplain]
    rw [if_pos hplain, hequal, catalogNamesEqual_iff hname hother, eq_comm]
  · rw [if_neg hplain, catalogNamesEqual_iff hother hname]

/-- Valid names are accepted where their components are pairwise different. -/
theorem validateDistinctNames_ok_iff {order : SortOrder} {role : String} {names : List (List UInt8)}
    (hnames : ∀ name ∈ names, validateCatalogName name order = .ok ()) :
    validateDistinctNames order role names = .ok () ↔
      names.Pairwise fun a b => nameComponent order a ≠ nameComponent order b := by
  rw [validateDistinctNames, forM_ok_iff, ← forall_zipIdx_take_iff]
  refine forall₂_congr fun entry hentry => ?_
  have hmem := List.mem_of_getElem? (List.mem_zipIdx_iff_getElem?.mp hentry)
  exact validateDistinctName_ok_iff (hnames _ hmem) fun other hother =>
    hnames other (List.mem_of_mem_take hother)

/-- The same for the tables of one request. -/
theorem validateDistinctTables_ok_iff {names : List (List UInt8)}
    (hnames : ∀ name ∈ names, validateCatalogName name .general = .ok ()) :
    validateDistinctTables names = .ok () ↔
      names.Pairwise fun a b => nameComponent .general a ≠ nameComponent .general b := by
  rw [validateDistinctTables, forM_ok_iff, ← forall_zipIdx_take_iff]
  refine forall₂_congr fun entry hentry => ?_
  have hmem := List.mem_of_getElem? (List.mem_zipIdx_iff_getElem?.mp hentry)
  have hfind : (names.take entry.2).findIdx? (fun earlier =>
      catalogNamesEqual earlier entry.1 .general) = none ↔
        ∀ earlier ∈ names.take entry.2, nameComponent .general earlier ≠
          nameComponent .general entry.1 := by
    rw [List.findIdx?_eq_none_iff]
    refine forall₂_congr fun earlier hearlier => ?_
    rw [← Bool.not_eq_true,
      catalogNamesEqual_iff (hnames _ (List.mem_of_mem_take hearlier)) (hnames _ hmem)]
  rw [← hfind]
  rcases (names.take entry.2).findIdx? fun earlier => catalogNamesEqual earlier entry.1 .general
    with _ | first
  · simp
  · simp

/-- A valid new name is accepted where its component is none of the existing ones. -/
theorem validateNewName_ok_iff {order : SortOrder} {name : List UInt8} {others : List (List UInt8)}
    (hname : validateCatalogName name order = .ok ())
    (hothers : ∀ other ∈ others, validateCatalogName other order = .ok ()) :
    validateNewName order name others = .ok () ↔
      ∀ other ∈ others, nameComponent order name ≠ nameComponent order other := by
  rw [validateNewName, forM_ok_iff]
  refine forall₂_congr fun other hmem => ?_
  rw [refuseIf_ok_iff, catalogNamesEqual_iff hname (hothers other hmem)]

/-! ## The agreement -/

/-- The names an order accepts. -/
def ValidName (order : SortOrder) : Type :=
  { name : List UInt8 // validateCatalogName name order = .ok () }

/-- Equality of names is an equivalence on valid names. -/
theorem catalogNamesEqual_equivalence (order : SortOrder) : Equivalence fun a b : ValidName order =>
    catalogNamesEqual a.val b.val order = true where
  refl a := (catalogNamesEqual_iff a.property a.property).mpr rfl
  symm {a b} h := (catalogNamesEqual_iff b.property a.property).mpr
    ((catalogNamesEqual_iff a.property b.property).mp h).symm
  trans {a b c} hab hbc := (catalogNamesEqual_iff a.property c.property).mpr
    (((catalogNamesEqual_iff a.property b.property).mp hab).trans
      ((catalogNamesEqual_iff b.property c.property).mp hbc))

/-- In every order, the comparison of names is the comparison of their keys, an equivalence that
tells names apart by their primary weights and trimmed accents; so the checks of creation and
renaming accept exactly the names whose keys in the unique index differ. -/
theorem catalogNames_agree (order : SortOrder) :
    (∀ a b, validateCatalogName a order = .ok () → validateCatalogName b order = .ok () →
      (catalogNamesEqual a b order = true ↔
        ∃ key, nameKey a order = .ok key ∧ nameKey b order = .ok key) ∧
      (catalogNamesEqual a b order = true ↔
        (LocaleText.sortWeights order a).1 = (LocaleText.sortWeights order b).1 ∧
          Text.trimNeutral (LocaleText.sortWeights order a).2 =
            Text.trimNeutral (LocaleText.sortWeights order b).2)) ∧
    Equivalence (fun a b : ValidName order => catalogNamesEqual a.val b.val order = true) ∧
    ∀ parent names, (∀ name ∈ names, validateCatalogName name order = .ok ()) →
      (∀ role, validateDistinctNames order role names = .ok () ↔
        names.Pairwise (DifferentKeys order parent)) ∧
      (order = .general → (validateDistinctTables names = .ok () ↔
        names.Pairwise (DifferentKeys order parent))) ∧
      (∀ name, validateCatalogName name order = .ok () →
        (validateNewName order name names = .ok () ↔
          ∀ other ∈ names, DifferentKeys order parent name other)) ∧
      (order = .general → ∀ name ∈ names, ∃ key,
        encodeCatalogNameKey parent name maxCreationKeyBytes = .ok key ∧
          catalogIndexKey parent name order = some key) := by
  refine ⟨fun a b ha hb => ⟨?_, ?_⟩, catalogNamesEqual_equivalence order,
    fun parent names hnames => ⟨fun role => ?_, ?_, fun name hname => ?_, ?_⟩⟩
  · -- equal names have one key, since both are valid
    rw [catalogNamesEqual_iff ha hb, nameKey_of_valid ha, nameKey_of_valid hb]
    constructor
    · exact fun h => ⟨nameComponent order b, by rw [h], rfl⟩
    · rintro ⟨key, hkey, hkey'⟩
      cases hkey
      exact (Except.ok.inj hkey').symm
  · rw [catalogNamesEqual_iff ha hb, nameComponent_eq_iff]
  · -- the three checks of names all compare keys
    rw [validateDistinctNames_ok_iff hnames, pairwise_differentKeys_iff parent hnames]
  · rintro rfl
    rw [validateDistinctTables_ok_iff hnames, pairwise_differentKeys_iff parent hnames]
  · rw [validateNewName_ok_iff hname hnames]
    exact forall₂_congr fun other hmem => (differentKeys_iff parent hname (hnames other hmem)).symm
  · rintro rfl name hmem
    exact encodeCatalogNameKey_of_valid parent (hnames name hmem)

/-- Names that differ in case and by a trailing space have one key, and are refused together. -/
theorem catalogNames_agree_case :
    catalogNamesEqual [0x41, 0x62] [0x61, 0x42, 0x20] .general = true ∧
      validateDistinctTables [[0x41, 0x62], [0x61, 0x42, 0x20]] ≠ .ok () := by
  have hfirst : validateCatalogName [0x41, 0x62] .general = .ok () := by decide +kernel
  have hsecond : validateCatalogName [0x61, 0x42, 0x20] .general = .ok () := by decide +kernel
  obtain ⟨hcompare, -, hlists⟩ := catalogNames_agree .general
  have hequal := (hcompare _ _ hfirst hsecond).2.mpr (by decide +kernel)
  obtain ⟨-, htables, -⟩ := hlists 0 [[0x41, 0x62], [0x61, 0x42, 0x20]] (by simp [hfirst, hsecond])
  refine ⟨hequal, fun hok => ?_⟩
  have hdiffer := List.rel_of_pairwise_cons ((htables rfl).mp hok) List.mem_cons_self
  rw [differentKeys_iff 0 hfirst hsecond] at hdiffer
  exact hdiffer ((catalogNamesEqual_iff hfirst hsecond).mp hequal)

end Jet3
