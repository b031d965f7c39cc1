import Jet3.Index.Entry
import Jet3.Index.Key.PrefixFree
import Jet3.Library.ByteOrder

/-!
# Keys and records

The key of an entry is a sequence of components, shortened when it is too long, and its record puts
the row locator behind the key.

* `ScalarIndexEntry.encode_ok` and `encode_none` invert the encoder;
* `key_prefix` says when the key of an entry is a proper prefix of another one: never, unless a key
  of 254 bytes meets a shortened one;
* `key_le_of_record_lt` compares keys by their records.
-/

namespace Jet3

open Outcome PrefixCode
open scoped ByteOrder

/-! ## Locators -/

@[simp]
theorem RowLocator.length_bytes (locator : RowLocator) : locator.bytes.length = locatorBytes := by
  simp [RowLocator.bytes, locatorBytes]

/-- Stored locators tell rows apart. -/
theorem RowLocator.bytes_injective {a b : RowLocator} (ha : a.page ≤ 0x00ffffff)
    (hb : b.page ≤ 0x00ffffff) (h : a.bytes = b.bytes) : a = b := by
  obtain ⟨hpage, hslot⟩ := List.append_inj h (by simp)
  have heq : a.page = b.page := by
    rw [← beValue_beBytes_of_lt (w := 3) (lt_of_le_of_lt ha (by norm_num)), hpage,
      beValue_beBytes_of_lt (lt_of_le_of_lt hb (by norm_num))]
  cases a
  cases b
  simp_all

/-! ## Shortening -/

/-- A key has at most 255 bytes. -/
theorem Binary.length_shorten (key : List UInt8) :
    (shorten key).length = min key.length maxKeyBytes := by
  unfold shorten
  split
  · omega
  · simp [prefixBytes, maxKeyBytes] at *
    omega

/-- Shortened words of a prefix code: one can be a proper prefix of another only at 254 bytes. -/
theorem Binary.shorten_prefix {code : Set (List UInt8)} (hcode : PrefixFree code)
    {a b : List UInt8} (ha : a ∈ code) (hb : b ∈ code) (h : shorten a <+: shorten b) :
    shorten a = shorten b ∨
      ((shorten a).length = maxKeyBytes - 1 ∧ (shorten b).length = maxKeyBytes) := by
  have hlengths := h.length_le
  rw [length_shorten, length_shorten] at hlengths ⊢
  rcases Nat.lt_or_ge maxKeyBytes a.length with hlong | hshort
  · exact .inl (h.eq_of_length (by rw [length_shorten, length_shorten]; omega))
  · rcases Nat.lt_or_ge maxKeyBytes b.length with hlong' | hshort'
    · rcases Nat.lt_or_ge a.length (maxKeyBytes - 1) with hlt | hge
      · -- the word lies inside what the longer one keeps
        have hfront : a <+: b.take prefixBytes := by
          rw [shorten, if_pos hshort, shorten, if_neg (by omega)] at h
          refine List.prefix_of_prefix_length_le h (List.prefix_append _ _) ?_
          rw [List.length_take]
          simp only [prefixBytes, maxKeyBytes] at *
          omega
        have heq := hcode a ha b hb (hfront.trans (List.take_prefix _ _))
        rw [heq] at hshort
        omega
      · rcases Nat.lt_or_eq_of_le hshort with hlt | heq
        · exact .inr ⟨by omega, by omega⟩
        · exact .inl (h.eq_of_length (by rw [length_shorten, length_shorten]; omega))
    · rw [shorten, if_pos hshort, shorten, if_pos hshort'] at h ⊢
      exact .inl (hcode a ha b hb h)

/-! ## Entries -/

namespace ScalarIndexEntry

/-- The keys of some fields, before they are shortened. -/
def keyCode (fields : List ScalarIndexField) : Set (List UInt8) :=
  {key | ∃ components, List.Forall₂ (· ∈ ·) components
    (fields.map fun field => field.kind.code field.direction) ∧ key = components.flatten}

/-- No key of an index is the front of another one, before they are cut. -/
theorem prefixFree_keyCode (fields : List ScalarIndexField) : PrefixFree (keyCode fields) := by
  rintro _ ⟨as, has, rfl⟩ _ ⟨bs, hbs, rfl⟩ h
  have hcodes : ∀ code ∈ fields.map fun field => field.kind.code field.direction,
      PrefixFree code := by
    simp only [List.forall_mem_map]
    exact fun field _ => ScalarKeyType.prefixFree_code field.kind field.direction
  rw [PrefixFree.flatten hcodes has hbs h]

/-- The columns of a row some field reads are all null. -/
def AllNull (fields : List ScalarIndexField) (values : List RowValue) : Prop :=
  ∀ field ∈ fields, ∃ value, values[field.column]? = some value ∧ field.kind.isNull value = true

/-- What the loop over the fields leaves. -/
theorem foldlM_encodeField {fields : List ScalarIndexField} {values : List RowValue}
    {state state' : KeyAccumulator}
    (h : fields.foldlM (encodeField values) state = .ok state') :
    (∃ key ∈ keyCode fields, state'.key = state.key ++ key) ∧
      (state'.allNull = true ↔ state.allNull = true ∧ AllNull fields values) := by
  induction fields generalizing state with
  | nil =>
    simp only [List.foldlM_nil, pure_ok_iff] at h
    subst h
    exact ⟨⟨[], ⟨[], .nil, rfl⟩, (List.append_nil _).symm⟩, by simp [AllNull]⟩
  | cons field fields ih =>
    simp only [List.foldlM_cons, encodeField, bind_ok_iff, okOr_ok_iff, pure_ok_iff] at h
    obtain ⟨next, ⟨value, hvalue, component, hcomponent, rfl⟩, hrest⟩ := h
    obtain ⟨⟨key, ⟨components, hcomponents, rfl⟩, hkey⟩, hnull⟩ := ih hrest
    refine ⟨⟨(component :: components).flatten,
      ⟨component :: components, .cons ⟨value, hcomponent⟩ hcomponents, rfl⟩, ?_⟩, ?_⟩
    · rw [hkey, List.flatten_cons, List.append_assoc]
    · rw [hnull, AllNull, AllNull, List.forall_mem_cons]
      simp only [Bool.and_eq_true, hvalue, Option.some.injEq, exists_eq_left', and_assoc]

/-- What an encoded entry holds. -/
structure Encodes (fields : List ScalarIndexField) (locator : RowLocator)
    (entry : ScalarIndexEntry) : Prop where
  key : ∃ key ∈ keyCode fields, entry.key = Binary.shorten key
  locator_eq : entry.locator = locator
  page_le : locator.page ≤ 0x00ffffff

/-- The entry of a row is its key, cut where it is too long, and its place. -/
theorem encode_ok {fields : List ScalarIndexField} {values : List RowValue}
    {nullPolicy : IndexNullPolicy} {locator : RowLocator} {entry : ScalarIndexEntry}
    (h : encode fields values nullPolicy locator = .ok (some entry)) :
    Encodes fields locator entry := by
  simp only [encode, bind_ok_iff, exists_unit, refuseIf_ok_iff] at h
  obtain ⟨-, hpage, state, hfold, -, hentry⟩ := h
  split at hentry
  · cases hentry
  · obtain rfl := Option.some.inj (pure_ok_iff.mp hentry)
    obtain ⟨⟨key, hkey, hstate⟩, -⟩ := foldlM_encodeField hfold
    exact ⟨⟨key, hkey, by rw [hstate, List.nil_append]⟩, rfl, not_lt.mp hpage⟩

/-- Only an all-null key of an index that ignores it is omitted. -/
theorem encode_none {fields : List ScalarIndexField} {values : List RowValue}
    {nullPolicy : IndexNullPolicy} {locator : RowLocator}
    (h : encode fields values nullPolicy locator = .ok none) :
    nullPolicy = .ignoreAllNull ∧ AllNull fields values := by
  simp only [encode, bind_ok_iff, exists_unit, refuseIf_ok_iff] at h
  obtain ⟨-, -, state, hfold, -, hentry⟩ := h
  split at hentry
  · rename_i hnull
    exact ⟨hnull.2, ((foldlM_encodeField hfold).2.mp hnull.1).2⟩
  · cases hentry

section Order

variable {fields : List ScalarIndexField} {row row' : RowLocator} {entry entry' : ScalarIndexEntry}

/-- A key is a proper prefix of another one only when it has 254 bytes and the other one was
shortened. -/
theorem key_prefix (h : Encodes fields row entry) (h' : Encodes fields row' entry')
    (hpre : entry.key <+: entry'.key) :
    entry.key = entry'.key ∨
      (entry.key.length = maxKeyBytes - 1 ∧ entry'.key.length = maxKeyBytes) := by
  obtain ⟨key, hkey, heq⟩ := h.key
  obtain ⟨key', hkey', heq'⟩ := h'.key
  rw [heq, heq'] at hpre ⊢
  exact Binary.shorten_prefix (prefixFree_keyCode fields) hkey hkey' hpre

/-- A key of 254 bytes that a shortened key begins with. -/
def Shadows (entry entry' : ScalarIndexEntry) : Prop :=
  entry.key.length = maxKeyBytes - 1 ∧ entry'.key.length = maxKeyBytes ∧ entry.key <+: entry'.key

/-- Records order their keys, unless one key shadows the other. -/
theorem key_le_of_record_lt (h : Encodes fields row entry) (h' : Encodes fields row' entry')
    (hclear : ¬Shadows entry' entry) (hlt : entry.record < entry'.record) :
    entry.key ≤ entry'.key := by
  by_contra hnot
  have hkeys : entry'.key < entry.key := not_le.mp hnot
  by_cases hpre : entry'.key <+: entry.key
  · rcases key_prefix h' h hpre with heq | ⟨hshort, hlong⟩
    · exact hkeys.ne heq
    · exact hclear ⟨hshort, hlong, hpre⟩
  · exact hlt.not_gt (append_lt_append hkeys hpre _ _)

/-- Records of different rows differ. -/
theorem row_eq_of_record_eq (h : Encodes fields row entry) (h' : Encodes fields row' entry')
    (heq : entry.record = entry'.record) : row = row' := by
  have hlength : entry.key.length = entry'.key.length := by
    have hlengths := congrArg List.length heq
    simp only [record, List.length_append, RowLocator.length_bytes] at hlengths
    omega
  obtain ⟨-, hbytes⟩ := List.append_inj heq hlength
  rw [h.locator_eq, h'.locator_eq] at hbytes
  exact RowLocator.bytes_injective h.page_le h'.page_le hbytes

end Order

end ScalarIndexEntry

end Jet3
