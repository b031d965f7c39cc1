import Jet3.Index.KeyOrder
import Jet3.Index.Mutation
import Jet3.Library.Lookup
import Mathlib.Data.List.Perm.Basic
import Mathlib.Logic.Function.Basic

/-!
# Indexes are images of their rows

The entries of an index are the encodings of the current rows in record order. Records order keys
the same way unless a key of 254 bytes meets a shortened key that begins with it; where no two rows
do, the search by key is a search, and a unique index stays unique.

* `IsImage` is what a load leaves, and `IsImage.keys_sorted` what it implies;
* `MutableIndex.insert_image`, `remove_image` and `replace_image` are the steps;
* `run_keeps_images` is about whole runs, and `run_admits_duplicate` is the run that does meet such
  keys.
-/

namespace Jet3

open Outcome
open scoped ByteOrder

/-- The rows of a table: the values of each stored row. -/
abbrev Rows : Type := RowLocator → Option (List RowValue)

namespace MutableIndex

/-- The entry of a row, with the errors of a statement. -/
theorem encode_ok_iff {index : MutableIndex} {values : List RowValue} {row : RowLocator}
    {entry : Option ScalarIndexEntry} :
    index.encode values row = .ok entry ↔
      ScalarIndexEntry.encode index.fields values index.nullPolicy row = .ok entry := by
  rw [encode, mapError_ok_iff]

/-- The entries are in record order, one for each row whose key is stored, and a unique index holds
no key twice unless it has a null. -/
structure IsImage (index : MutableIndex) (rows : Rows) : Prop where
  sorted : index.entries.Pairwise fun a b => a.record < b.record
  unique : index.unique = true → index.entries.Pairwise fun a b =>
    a.hasNull = false → b.hasNull = false → a.key ≠ b.key
  mem_iff : ∀ entry, entry ∈ index.entries ↔
    ∃ row values, rows row = some values ∧ index.encode values row = .ok (some entry)
  encodes : ∀ row values, rows row = some values → ∃ entry, index.encode values row = .ok entry

/-- No key of a row is 254 bytes that the shortened key of another row begins with. -/
def Clear (index : MutableIndex) (rows : Rows) : Prop :=
  ∀ row values row' values' entry entry', rows row = some values → rows row' = some values' →
    index.encode values row = .ok (some entry) → index.encode values' row' = .ok (some entry') →
      ¬entry.Shadows entry'

/-- The schema of an index decides which entries rows have. -/
def SameSchema (index index' : MutableIndex) : Prop :=
  index'.fields = index.fields ∧ index'.nullPolicy = index.nullPolicy ∧
    index'.unique = index.unique

section Image

variable {index : MutableIndex} {rows : Rows}

/-- Indexes of one schema give a row the same entry. -/
theorem SameSchema.encode_eq {index' : MutableIndex} (h : SameSchema index index')
    (values : List RowValue) (row : RowLocator) :
    index'.encode values row = index.encode values row := by
  rw [encode, encode, h.1, h.2.1]

/-- Every entry of an image is that of a stored row. -/
theorem IsImage.exists_row (h : IsImage index rows) {entry : ScalarIndexEntry}
    (hentry : entry ∈ index.entries) : ∃ values, rows entry.locator = some values ∧
      index.encode values entry.locator = .ok (some entry) := by
  obtain ⟨row, values, hrow, hencode⟩ := (h.mem_iff entry).mp hentry
  have hlocator := (ScalarIndexEntry.encode_ok (encode_ok_iff.mp hencode)).locator_eq
  rw [hlocator]
  exact ⟨values, hrow, hencode⟩

/-- Where no key shadows another, the entries are in key order. -/
theorem IsImage.keys_sorted (h : IsImage index rows) (hclear : index.Clear rows) :
    index.entries.Pairwise fun a b => a.key ≤ b.key := by
  refine h.sorted.imp_of_mem fun {a b} ha hb hlt => ?_
  obtain ⟨values, hrow, hencode⟩ := h.exists_row ha
  obtain ⟨values', hrow', hencode'⟩ := h.exists_row hb
  exact ScalarIndexEntry.key_le_of_record_lt (ScalarIndexEntry.encode_ok (encode_ok_iff.mp hencode))
    (ScalarIndexEntry.encode_ok (encode_ok_iff.mp hencode'))
    (hclear _ _ _ _ _ _ hrow' hrow hencode' hencode) hlt

/-- The entries of an image, by the rows they are of. -/
theorem IsImage.mem_iff_locator (h : IsImage index rows) (entry : ScalarIndexEntry) :
    entry ∈ index.entries ↔ ∃ values, rows entry.locator = some values ∧
      index.encode values entry.locator = .ok (some entry) :=
  ⟨h.exists_row, fun ⟨_, hrow, hencode⟩ => (h.mem_iff entry).mpr ⟨_, _, hrow, hencode⟩⟩

/-- A row has one entry. -/
theorem IsImage.eq_of_locator (h : IsImage index rows) {entry entry' : ScalarIndexEntry}
    (hentry : entry ∈ index.entries) (hentry' : entry' ∈ index.entries)
    (heq : entry.locator = entry'.locator) : entry = entry' := by
  obtain ⟨values, hrow, hencode⟩ := h.exists_row hentry
  obtain ⟨values', hrow', hencode'⟩ := h.exists_row hentry'
  rw [heq] at hrow hencode
  obtain rfl := Option.some.inj (hrow.symm.trans hrow')
  exact Option.some.inj (Except.ok.inj (hencode.symm.trans hencode'))

/-- An entry is the one that is found under its row. -/
theorem IsImage.mem_iff_find? (h : IsImage index rows) {row : RowLocator}
    {entry : ScalarIndexEntry} (hrow : entry.locator = row) :
    entry ∈ index.entries ↔ (index.entries.find? fun r => r.locator = row) = some entry := by
  constructor
  · intro hentry
    rcases hfind : index.entries.find? fun r => r.locator = row with _ | found
    · rw [List.find?_eq_none] at hfind
      exact absurd hrow (by simpa using hfind entry hentry)
    · have hfound := List.find?_some hfind
      rw [decide_eq_true_eq] at hfound
      rw [hfind, h.eq_of_locator (List.mem_of_find?_eq_some hfind) hentry (hfound.trans hrow.symm)]
  · exact List.mem_of_find?_eq_some

/-- An entry belongs to the row its locator names. -/
theorem mem_iff_of_locator {entries : List ScalarIndexEntry}
    (h : ∀ entry, entry ∈ entries ↔ ∃ values, rows entry.locator = some values ∧
      index.encode values entry.locator = .ok (some entry)) (entry : ScalarIndexEntry) :
    entry ∈ entries ↔
      ∃ row values, rows row = some values ∧ index.encode values row = .ok (some entry) := by
  rw [h]
  constructor
  · rintro ⟨values, hrow, hencode⟩
    exact ⟨_, values, hrow, hencode⟩
  · rintro ⟨row, values, hrow, hencode⟩
    have hlocator := (ScalarIndexEntry.encode_ok (encode_ok_iff.mp hencode)).locator_eq
    exact ⟨values, hlocator ▸ hrow, hlocator ▸ hencode⟩

/-- Fewer rows have fewer conflicts. -/
theorem Clear.mono {rows' : Rows} (h : index.Clear rows')
    (hrows : ∀ row values, rows row = some values → rows' row = some values) :
    index.Clear rows :=
  fun _ _ _ _ _ _ hrow hrow' => h _ _ _ _ _ _ (hrows _ _ hrow) (hrows _ _ hrow')

/-! ## One index -/

/-- Where the search by key ends, a key is present exactly when some entry has it. -/
theorem present_iff {entries : List ScalarIndexEntry}
    (h : entries.Pairwise fun a b => a.key ≤ b.key)
    (key : List UInt8) :
    (entries[Search.partitionPoint (fun r => r.key < key) entries]?.any fun r => r.key = key) =
      true ↔ ∃ r ∈ entries, r.key = key := by
  obtain ⟨front, back, rfl, hfront, hback, hpoint⟩ := Search.exists_split
    (fun r : ScalarIndexEntry => decide (r.key < key))
    (h.imp fun {a b} hle => by simpa using hle.trans_lt)
  rw [hpoint, List.getElem?_append_right le_rfl, Nat.sub_self]
  simp only [decide_eq_true_eq, decide_eq_false_iff_not, not_lt] at hfront hback
  rcases back with _ | ⟨first, rest⟩
  · simp only [List.append_nil, List.getElem?_nil, Option.any_none, Bool.false_eq_true, false_iff]
    rintro ⟨r, hr, rfl⟩
    exact (hfront r hr).false
  · simp only [List.getElem?_cons_zero, Option.any_some, decide_eq_true_eq]
    constructor
    · exact fun heq => ⟨first, by simp, heq⟩
    · rintro ⟨r, hr, rfl⟩
      rcases List.mem_append.mp hr with hr | hr
      · exact absurd (hfront r hr) (lt_irrefl _)
      · refine le_antisymm ?_ (hback first List.mem_cons_self)
        rcases List.mem_cons.mp hr with rfl | hr
        · exact le_rfl
        · exact (List.pairwise_cons.mp (List.pairwise_append.mp h).2.1).1 r hr

/-- A row without an entry does not change the image. -/
theorem IsImage.insert_none {row : RowLocator} {values : List RowValue} (h : IsImage index rows)
    (hfresh : rows row = none) (hencode : index.encode values row = .ok none) :
    IsImage index (Function.update rows row (some values)) := by
  refine ⟨h.sorted, h.unique, mem_iff_of_locator fun entry => ?_, fun other others hother => ?_⟩
  · rw [h.mem_iff_locator]
    by_cases hrow : entry.locator = row
    · rw [hrow, hfresh, Function.update_self]
      simp [hencode]
    · rw [Function.update_of_ne hrow]
  · by_cases hrow : other = row
    · subst hrow
      rw [Function.update_self, Option.some.injEq] at hother
      exact ⟨none, hother ▸ hencode⟩
    · rw [Function.update_of_ne hrow] at hother
      exact h.encodes other others hother

/-- Inserting the entry of a new row. -/
theorem insert_image {index' : MutableIndex} {row : RowLocator} {values : List RowValue}
    {entry : ScalarIndexEntry} {updateCounter : Bool} (h : IsImage index rows)
    (hfresh : rows row = none) (hencode : index.encode values row = .ok (some entry))
    (hclear : index.Clear (Function.update rows row (some values)))
    (hinsert : index.insert entry updateCounter = .ok index') :
    SameSchema index index' ∧ IsImage index' (Function.update rows row (some values)) := by
  have hentry := ScalarIndexEntry.encode_ok (encode_ok_iff.mp hencode)
  have hkeys := h.keys_sorted (hclear.mono fun other others hother => by
    have hne : other ≠ row := by
      rintro rfl
      rw [hfresh] at hother
      cases hother
    rwa [Function.update_of_ne hne])
  simp only [insert, bind_ok_iff, exists_unit, refuseIf_ok_iff, pure_ok_iff, present_iff hkeys]
    at hinsert
  obtain ⟨hunique, rfl⟩ := hinsert
  have hdistinct : ∀ r ∈ index.entries, r.record ≠ entry.record := by
    intro r hr heq
    obtain ⟨others, hother, hencode'⟩ := h.exists_row hr
    have hsame := ScalarIndexEntry.row_eq_of_record_eq
      (ScalarIndexEntry.encode_ok (encode_ok_iff.mp hencode')) hentry heq
    rw [hsame, hfresh] at hother
    cases hother
  obtain ⟨front, back, hsplit, hfront, hback, hpoint⟩ := Search.exists_split
    (fun r : ScalarIndexEntry => decide (r.record < entry.record))
    (h.sorted.imp fun {a b} hlt => by simpa using hlt.trans)
  have hentries : index.entries.insertIdx (Search.partitionPoint
      (fun r => decide (r.record < entry.record)) index.entries) entry =
        front ++ entry :: back := by
    rw [hpoint]
    conv_lhs => rw [hsplit]
    exact Search.insertIdx_append_length front back entry
  rw [hentries]
  have hperm : (front ++ entry :: back).Perm (entry :: index.entries) := by
    rw [hsplit]
    exact List.perm_middle
  refine ⟨⟨rfl, rfl, rfl⟩, ⟨?_, fun hindex => ?_, mem_iff_of_locator fun r => ?_,
    fun other others hother => ?_⟩⟩
  · -- the records split around the new one
    have hsorted := h.sorted
    rw [hsplit, List.pairwise_append] at hsorted
    simp only [decide_eq_true_eq, decide_eq_false_iff_not] at hfront hback
    refine List.pairwise_append.mpr
      ⟨hsorted.1, List.pairwise_cons.mpr ⟨fun r hr => ?_, hsorted.2.1⟩,
      fun a ha b hb => ?_⟩
    · have hmem : r ∈ index.entries := hsplit ▸ List.mem_append_right front hr
      exact lt_of_le_of_ne (not_lt.mp (hback r hr)) (hdistinct r hmem).symm
    · rcases List.mem_cons.mp hb with rfl | hb
      · exact hfront a ha
      · exact hsorted.2.2 a ha b hb
  · -- the new key is not among the old ones
    have hsymm : Std.Symm fun a b : ScalarIndexEntry =>
        a.hasNull = false → b.hasNull = false → a.key ≠ b.key :=
      ⟨fun a b hab hb ha => (hab ha hb).symm⟩
    refine (hperm.pairwise_iff (fun {a b} hab => hsymm.symm a b hab)).mpr
      (List.pairwise_cons.mpr ⟨fun r hr hnull _ heq => ?_, h.unique hindex⟩)
    exact hunique ⟨hindex, by simp [hnull], r, hr, heq.symm⟩
  · rw [hperm.mem_iff, List.mem_cons, h.mem_iff_locator]
    by_cases hrow : r.locator = row
    · rw [hrow, hfresh, Function.update_self]
      constructor
      · rintro (rfl | ⟨_, hnone, -⟩)
        · exact ⟨values, rfl, hencode⟩
        · cases hnone
      · rintro ⟨_, heq, hr⟩
        cases heq
        exact .inl (Option.some.inj (Except.ok.inj (hr.symm.trans hencode)))
    · have hne : r ≠ entry := by
        rintro rfl
        exact hrow hentry.locator_eq
      rw [Function.update_of_ne hrow]
      simp [hne, encode]
  · by_cases hrow : other = row
    · subst hrow
      rw [Function.update_self, Option.some.injEq] at hother
      exact ⟨_, hother ▸ hencode⟩
    · rw [Function.update_of_ne hrow] at hother
      exact h.encodes other others hother

/-- Removing a row. -/
theorem remove_image {index' : MutableIndex} {row : RowLocator} (h : IsImage index rows)
    (hremove : index.remove row = .ok index') :
    SameSchema index index' ∧ IsImage index' (Function.update rows row none) := by
  have hencodes : ∀ other others, Function.update rows row none other = some others →
      ∃ entry, index.encode others other = .ok entry := by
    intro other others hother
    by_cases hrow : other = row
    · rw [hrow, Function.update_self] at hother
      cases hother
    · rw [Function.update_of_ne hrow] at hother
      exact h.encodes other others hother
  -- entries of other rows stay, and the row has no entry any more
  have hmem : ∀ {entries : List ScalarIndexEntry},
      (∀ r, r ∈ entries ↔ r ∈ index.entries ∧ r.locator ≠ row) → ∀ r, r ∈ entries ↔
        ∃ others, Function.update rows row none r.locator = some others ∧
          index.encode others r.locator = .ok (some r) := by
    intro entries hentries r
    rw [hentries, h.mem_iff_locator]
    by_cases hrow : r.locator = row
    · simp [hrow]
    · simp [hrow]
  unfold remove at hremove
  split at hremove
  · rename_i position hposition
    cases hremove
    obtain ⟨hlt, hlocator, -⟩ := List.findIdx?_eq_some_iff_getElem.mp hposition
    rw [decide_eq_true_eq] at hlocator
    have hsublist := List.eraseIdx_sublist index.entries position
    refine ⟨⟨rfl, rfl, rfl⟩, ⟨h.sorted.sublist hsublist, fun hindex =>
      (h.unique hindex).sublist hsublist, mem_iff_of_locator (hmem fun r => ?_), hencodes⟩⟩
    have hperm := List.getElem_cons_eraseIdx_perm hlt
    have hnodup : (index.entries[position] :: index.entries.eraseIdx position).Nodup :=
      hperm.nodup_iff.mpr (h.sorted.imp fun {a b} hlt heq => by
        rw [heq] at hlt
        exact lt_irrefl _ hlt)
    -- the entry at the position is the only one of the row
    have hsame : ∀ r ∈ index.entries, r = index.entries[position] ↔ r.locator = row := by
      refine fun r hr => ⟨fun heq => heq ▸ hlocator, fun hrow => ?_⟩
      exact h.eq_of_locator hr (List.getElem_mem hlt) (hrow.trans hlocator.symm)
    rw [← hperm.mem_iff, List.mem_cons]
    constructor
    · intro hr
      refine ⟨.inr hr, fun hrow => ?_⟩
      rw [← hsame r (hsublist.mem hr)] at hrow
      exact (List.nodup_cons.mp hnodup).1 (hrow ▸ hr)
    · rintro ⟨rfl | hr, hrow⟩
      · exact absurd hlocator hrow
      · exact hr
  · rename_i hnone
    split at hremove
    · cases hremove
    · cases hremove
      rw [List.findIdx?_eq_none_iff] at hnone
      refine ⟨⟨rfl, rfl, rfl⟩, ⟨h.sorted, h.unique, mem_iff_of_locator (hmem fun r => ?_),
        hencodes⟩⟩
      exact ⟨fun hr => ⟨hr, by simpa using hnone r hr⟩, And.left⟩

/-- Replacing the values of a row. -/
theorem replace_image {index' : MutableIndex} {row : RowLocator} {values : List RowValue}
    {columns : Option (List ℕ)} (h : IsImage index rows)
    (hclear : index.Clear (Function.update rows row (some values)))
    (hreplace : index.replace row values columns = .ok index') :
    SameSchema index index' ∧ IsImage index' (Function.update rows row (some values)) := by
  simp only [replace, bind_ok_iff] at hreplace
  obtain ⟨new, hencode, hreplace⟩ := hreplace
  generalize (if index.relationshipCounter = true ∧ index.assigns columns = true then
    some CounterChange.removeRelationshipEntry else index.counter) = counter at hreplace
  -- the counter is no part of the image
  have hcounted : IsImage { index with counter } rows := ⟨h.sorted, h.unique, h.mem_iff, h.encodes⟩
  split at hreplace
  · rename_i hold
    cases hreplace
    refine ⟨⟨rfl, rfl, rfl⟩, ⟨h.sorted, h.unique, mem_iff_of_locator fun r => ?_,
      fun other others hother => ?_⟩⟩
    · by_cases hrow : r.locator = row
      · rw [hrow, Function.update_self, h.mem_iff_find? hrow]
        constructor
        · intro hfound
          exact ⟨values, rfl, by rw [← hfound, hold]; exact hencode⟩
        · rintro ⟨_, heq, hr⟩
          cases heq
          exact hold.trans (Except.ok.inj (hencode.symm.trans hr))
      · rw [Function.update_of_ne hrow]
        exact h.mem_iff_locator r
    · by_cases hrow : other = row
      · subst hrow
        rw [Function.update_self, Option.some.injEq] at hother
        exact ⟨new, hother ▸ hencode⟩
      · rw [Function.update_of_ne hrow] at hother
        exact h.encodes other others hother
  · simp only [bind_ok_iff] at hreplace
    obtain ⟨removed, hremove, hinsert⟩ := hreplace
    obtain ⟨hschema, himage⟩ := remove_image hcounted hremove
    have hencode' : removed.encode values row = .ok new :=
      (hschema.encode_eq values row).trans hencode
    have hgone : Function.update rows row none row = none := Function.update_self ..
    have hrows : Function.update (Function.update rows row none) row (some values) =
        Function.update rows row (some values) := Function.update_idem ..
    rcases new with _ | entry
    · cases hinsert
      have hnone := himage.insert_none hgone hencode'
      rw [hrows] at hnone
      exact ⟨hschema, hnone⟩
    · have hclear' : removed.Clear (Function.update rows row (some values)) := by
        intro r v r' v' e e' hr hr' he he'
        rw [hschema.encode_eq] at he he'
        exact hclear r v r' v' e e' hr hr' he he'
      obtain ⟨hschema', himage'⟩ := insert_image himage hgone hencode' (hrows ▸ hclear') hinsert
      rw [hrows] at himage'
      exact ⟨⟨hschema'.1.trans hschema.1, hschema'.2.1.trans hschema.2.1,
        hschema'.2.2.trans hschema.2.2⟩, himage'⟩

end Image

end MutableIndex

/-! ## Loading -/

namespace MutableIndex

/-- In key order equal keys are neighbours. -/
theorem pairwise_of_not_hasDuplicate {entries : List ScalarIndexEntry}
    (hsorted : entries.Pairwise fun a b => a.key ≤ b.key) (h : hasDuplicate entries = false) :
    entries.Pairwise fun a b => a.hasNull = false → b.hasNull = false → a.key ≠ b.key := by
  induction entries with
  | nil => exact .nil
  | cons a rest ih =>
    rw [List.pairwise_cons] at hsorted ⊢
    cases rest with
    | nil => exact ⟨by simp, .nil⟩
    | cons b rest =>
      have hsplit : (!a.hasNull && a.key == b.key) = false ∧ hasDuplicate (b :: rest) = false := by
        simpa only [hasDuplicate, List.tail_cons, List.zip_cons_cons, List.any_cons,
          Bool.or_eq_false_iff] using h
      refine ⟨fun c hc hnull _ heq => ?_, ih hsorted.2 hsplit.2⟩
      -- the neighbour lies between two equal keys
      have hle : b.key ≤ c.key := by
        rcases List.mem_cons.mp hc with rfl | hc
        · exact le_rfl
        · exact (List.pairwise_cons.mp hsorted.2).1 c hc
      have hsame : a.key = b.key := le_antisymm (hsorted.1 b List.mem_cons_self) (heq ▸ hle)
      have hdistinct := hsplit.1
      rw [hnull, hsame] at hdistinct
      simp at hdistinct

/-- The rows a table stores. -/
def storedRows (rows : List (RowLocator × List RowValue)) : Rows :=
  fun row => rows.lookup row

/-- A loaded index is an image of the stored rows. -/
theorem load_image {fields : List ScalarIndexField} {nullPolicy : IndexNullPolicy}
    {unique relationshipCounter : Bool} {rows : List (RowLocator × List RowValue)}
    {index : MutableIndex} (hnodup : (rows.map Prod.fst).Nodup)
    (hclear : index.Clear (storedRows rows))
    (h : load fields nullPolicy unique relationshipCounter rows = .ok index) :
    index.IsImage (storedRows rows) := by
  simp only [load, bind_ok_iff, exists_unit, refuseIf_ok_iff, pure_ok_iff] at h
  obtain ⟨encoded, hencoded, hunique, rfl⟩ := h
  obtain ⟨g, rfl, hg⟩ := exists_eq_map_of_mapM_ok hencoded
  let stored : MutableIndex := { fields, nullPolicy, unique, entries := [], changed := false
                                 relationshipCounter, counter := none }
  have hlookup : ∀ {row values}, storedRows rows row = some values ↔ (row, values) ∈ rows :=
    Lookup.lookup_eq_some_iff hnodup
  have hencode : ∀ {row values}, (row, values) ∈ rows →
      stored.encode values row = .ok (g (row, values)) := fun hrow => hg _ hrow
  -- before it is sorted, the list holds the entries of the rows
  have hmem : ∀ entry, entry ∈ (rows.map g).filterMap id ↔
      ∃ row values, storedRows rows row = some values ∧ stored.encode values row =
        .ok (some entry) := by
    intro entry
    simp only [List.mem_filterMap, List.mem_map, id, exists_eq_right]
    constructor
    · rintro ⟨⟨row, values⟩, hrow, hentry⟩
      exact ⟨row, values, hlookup.mpr hrow, hentry ▸ hencode hrow⟩
    · rintro ⟨row, values, hrow, hentry⟩
      have hrow := hlookup.mp hrow
      exact ⟨(row, values), hrow, Except.ok.inj ((hencode hrow).symm.trans hentry)⟩
  have hencodes : ∀ {row values entry}, (row, values) ∈ rows → g (row, values) = some entry →
      ScalarIndexEntry.Encodes fields row entry := fun hrow hentry =>
    ScalarIndexEntry.encode_ok (encode_ok_iff.mp (hentry ▸ hencode hrow))
  have hdistinct : ((rows.map g).filterMap id).Pairwise fun a b => a.record ≠ b.record := by
    rw [List.pairwise_filterMap, List.pairwise_map]
    refine (List.pairwise_map.mp hnodup).imp_of_mem
      fun {a b} ha hb hne entry hentry entry' hentry' => ?_
    exact fun heq => hne (ScalarIndexEntry.row_eq_of_record_eq (hencodes ha hentry)
      (hencodes hb hentry') heq)
  have hperm := List.perm_insertionSort (fun a b : ScalarIndexEntry => a.record ≤ b.record)
    ((rows.map g).filterMap id)
  have htotal : Std.Total fun a b : ScalarIndexEntry => a.record ≤ b.record :=
    ⟨fun a b => le_total a.record b.record⟩
  have htrans : IsTrans ScalarIndexEntry fun a b => a.record ≤ b.record := ⟨fun _ _ _ => le_trans⟩
  have hsorted := List.pairwise_insertionSort (fun a b : ScalarIndexEntry => a.record ≤ b.record)
    ((rows.map g).filterMap id)
  generalize ((rows.map g).filterMap id).insertionSort
    (fun a b : ScalarIndexEntry => a.record ≤ b.record) = entries at hperm hsorted hunique hclear ⊢
  -- records of different rows differ, so the sorted list ascends strictly
  have hstrict : entries.Pairwise fun a b => a.record < b.record := by
    have hne := (hperm.pairwise_iff fun {a b} (h : a.record ≠ b.record) => h.symm).mpr hdistinct
    exact (hsorted.and hne).imp fun h => lt_of_le_of_ne h.1 h.2
  have himage : IsImage { stored with entries, unique := false } (storedRows rows) :=
    ⟨hstrict, by simp, fun entry => hperm.mem_iff.trans (hmem entry),
      fun row values hrow => ⟨_, hencode (hlookup.mp hrow)⟩⟩
  refine ⟨hstrict, fun hindex => ?_, himage.mem_iff, himage.encodes⟩
  refine pairwise_of_not_hasDuplicate (himage.keys_sorted hclear) ?_
  simpa [show unique = true from hindex] using hunique

end MutableIndex

/-! ## Runs -/

/-- A change of the rows of a table. -/
inductive IndexCall where
  | insert (row : RowLocator) (values : List RowValue)
  | remove (row : RowLocator)
  | replace (row : RowLocator) (values : List RowValue) (columns : Option (List ℕ))

namespace IndexCall

/-- One call on all indexes of a table. -/
def apply (indexes : Indexes) : IndexCall → Except WriteError Indexes
  | insert row values => indexes.insert values row
  | remove row => indexes.remove row
  | replace row values columns => indexes.replaceSelected row values columns

/-- The rows after the call. -/
def after (rows : Rows) : IndexCall → Rows
  | insert row values => Function.update rows row (some values)
  | remove row => Function.update rows row none
  | replace row values _ => Function.update rows row (some values)

/-- A row is inserted where there was none. -/
def Fresh (rows : Rows) : IndexCall → Prop
  | insert row _ => rows row = none
  | _ => True

end IndexCall

namespace Indexes

/-- Rows are inserted where there were none, throughout a run. -/
def RunsFresh : Rows → List IndexCall → Prop
  | _, [] => True
  | rows, call :: rest => call.Fresh rows ∧ RunsFresh (call.after rows) rest

/-- No two rows of any state of a run have keys that shadow each other. -/
def RunsClear (indexes : Indexes) : Rows → List IndexCall → Prop
  | rows, [] => ∀ index ∈ indexes, index.Clear rows
  | rows, call :: rest => (∀ index ∈ indexes, index.Clear rows) ∧
      RunsClear indexes (call.after rows) rest

/-- Every index is an image of the rows. -/
def AreImages (indexes : Indexes) (rows : Rows) : Prop :=
  ∀ index ∈ indexes, index.IsImage rows

/-- Images of all indexes from the step of each. -/
theorem images_of_mapM {step : MutableIndex → Except WriteError MutableIndex}
    {indexes indexes' : Indexes} {rows : Rows} (hmap : indexes.mapM step = .ok indexes')
    (hstep : ∀ index ∈ indexes, ∀ index', step index = .ok index' →
      index.SameSchema index' ∧ index'.IsImage rows) :
    List.Forall₂ MutableIndex.SameSchema indexes indexes' ∧ indexes'.AreImages rows := by
  have hpairs := forall₂_of_mapM_ok hmap
  clear hmap
  induction hpairs with
  | nil => exact ⟨.nil, by simp [AreImages]⟩
  | cons hfirst _ ih =>
    rw [List.forall_mem_cons] at hstep
    obtain ⟨hschema, himage⟩ := hstep.1 _ hfirst
    obtain ⟨hschemas, himages⟩ := ih hstep.2
    exact ⟨.cons hschema hschemas, List.forall_mem_cons.mpr ⟨himage, himages⟩⟩

/-- One call. -/
theorem apply_images {indexes indexes' : Indexes} {rows : Rows} {call : IndexCall}
    (h : indexes.AreImages rows) (hfresh : call.Fresh rows)
    (hclear : ∀ index ∈ indexes, index.Clear (call.after rows))
    (hcall : call.apply indexes = .ok indexes') :
    List.Forall₂ MutableIndex.SameSchema indexes indexes' ∧
      indexes'.AreImages (call.after rows) := by
  cases call with
  | insert row values =>
    refine images_of_mapM hcall fun index hindex index' hstep => ?_
    simp only [bind_ok_iff] at hstep
    obtain ⟨entry, hencode, hstep⟩ := hstep
    rcases entry with _ | entry
    · cases hstep
      exact ⟨⟨rfl, rfl, rfl⟩, (h index hindex).insert_none hfresh hencode⟩
    · exact MutableIndex.insert_image (h index hindex) hfresh hencode (hclear index hindex) hstep
  | remove row =>
    refine images_of_mapM hcall fun index hindex index' hstep => ?_
    simp only [bind_ok_iff, pure_ok_iff] at hstep
    obtain ⟨removed, hremove, rfl⟩ := hstep
    obtain ⟨hschema, himage⟩ := MutableIndex.remove_image (h index hindex) hremove
    exact ⟨hschema, himage.sorted, himage.unique, himage.mem_iff, himage.encodes⟩
  | replace row values columns =>
    exact images_of_mapM hcall fun index hindex index' hstep =>
      MutableIndex.replace_image (h index hindex) (hclear index hindex) hstep

/-- Rows without conflicts in one schema have none in the same one. -/
theorem clear_of_sameSchema {indexes indexes' : Indexes}
    (h : List.Forall₂ MutableIndex.SameSchema indexes indexes') {rows : Rows}
    (hclear : ∀ index ∈ indexes, index.Clear rows) : ∀ index ∈ indexes', index.Clear rows := by
  induction h with
  | nil => exact hclear
  | cons hfirst _ ih =>
    rw [List.forall_mem_cons] at hclear ⊢
    refine ⟨fun r v r' v' e e' hr hr' he he' => ?_, ih hclear.2⟩
    rw [hfirst.encode_eq] at he he'
    exact hclear.1 r v r' v' e e' hr hr' he he'

/-- The same for every state of a run. -/
theorem runsClear_of_sameSchema {indexes indexes' : Indexes}
    (h : List.Forall₂ MutableIndex.SameSchema indexes indexes') {rows : Rows}
    {calls : List IndexCall} (hclear : RunsClear indexes rows calls) :
    RunsClear indexes' rows calls := by
  induction calls generalizing rows with
  | nil => exact clear_of_sameSchema h hclear
  | cons call calls ih => exact ⟨clear_of_sameSchema h hclear.1, ih hclear.2⟩

/-- The first state of a run has no conflicts. -/
theorem RunsClear.clear {indexes : Indexes} {rows : Rows} {calls : List IndexCall}
    (h : RunsClear indexes rows calls) : ∀ index ∈ indexes, index.Clear rows := by
  cases calls with
  | nil => exact h
  | cons call calls => exact h.1

/-- What a state of a run satisfies: the indexes are images of the rows, in key order as well. -/
structure Ordered (indexes : Indexes) (rows : Rows) : Prop where
  images : indexes.AreImages rows
  keys_sorted : ∀ index ∈ indexes, index.entries.Pairwise fun a b => a.key ≤ b.key
  omitted : ∀ index ∈ indexes, ∀ row values, rows row = some values →
    (∃ entry ∈ index.entries, entry.locator = row) ∨
      (index.nullPolicy = .ignoreAllNull ∧ ScalarIndexEntry.AllNull index.fields values)

/-- Images without conflicts are in the order of their keys. -/
theorem AreImages.ordered {indexes : Indexes} {rows : Rows} (h : indexes.AreImages rows)
    (hclear : ∀ index ∈ indexes, index.Clear rows) : indexes.Ordered rows := by
  refine ⟨h, fun index hindex => (h index hindex).keys_sorted (hclear index hindex),
    fun index hindex row values hrow => ?_⟩
  obtain ⟨entry, hencode⟩ := (h index hindex).encodes row values hrow
  rcases entry with _ | entry
  · exact .inr (ScalarIndexEntry.encode_none (MutableIndex.encode_ok_iff.mp hencode))
  · have hlocator :=
      (ScalarIndexEntry.encode_ok (MutableIndex.encode_ok_iff.mp hencode)).locator_eq
    exact .inl ⟨entry, ((h index hindex).mem_iff entry).mpr ⟨row, values, hrow, hencode⟩, hlocator⟩

/-- Indexes stay ordered images of their rows, unique where they are declared unique, in every run
none of whose states holds two rows with keys that shadow each other. -/
theorem run_keeps_images {indexes indexes' : Indexes} {rows : Rows} {calls : List IndexCall}
    (h : indexes.AreImages rows) (hfresh : RunsFresh rows calls)
    (hclear : RunsClear indexes rows calls)
    (hrun : calls.foldlM IndexCall.apply indexes = .ok indexes') :
    indexes'.Ordered (calls.foldl IndexCall.after rows) := by
  induction calls generalizing indexes rows with
  | nil =>
    simp only [List.foldlM_nil, pure_ok_iff] at hrun
    subst hrun
    exact h.ordered hclear
  | cons call calls ih =>
    simp only [List.foldlM_cons, bind_ok_iff] at hrun
    obtain ⟨next, hcall, hrest⟩ := hrun
    obtain ⟨hschema, himages⟩ := apply_images h hfresh.1 hclear.2.clear hcall
    exact ih himages hfresh.2 (runsClear_of_sameSchema hschema hclear.2) hrest

/-- An index of long integers, without rows. -/
def longIndex : MutableIndex where
  fields := [{ column := 0, direction := .ascending, kind := .long }]
  nullPolicy := .include
  unique := true
  entries := []
  changed := false
  relationshipCounter := false
  counter := none

/-- Long integers have short keys. -/
theorem clear_longIndex (rows : Rows) : longIndex.Clear rows := by
  rintro row values row' values' entry entry' - - hencode - ⟨hlength, -⟩
  obtain ⟨key, ⟨components, hcomponents, rfl⟩, hkey⟩ :=
    (ScalarIndexEntry.encode_ok (MutableIndex.encode_ok_iff.mp hencode)).key
  rcases hcomponents with _ | ⟨⟨value, hvalue⟩, hrest⟩
  cases hrest
  rename_i component
  have hshort : component.length ≤ 5 := by
    rcases ScalarKeyType.encode_cases hvalue with rfl | ⟨rest, rfl, hwidth⟩
    · simp
    · rw [List.length_cons, hwidth]
      rfl
  rw [hkey, Binary.length_shorten] at hlength
  simp only [List.flatten_cons, List.flatten_nil, List.append_nil, maxKeyBytes] at hlength
  omega

/-- Indexes without entries are images of no rows. -/
theorem areImages_of_no_entries {indexes : Indexes}
    (h : ∀ index ∈ indexes, index.entries = []) : indexes.AreImages fun _ => none :=
  fun index hindex =>
    ⟨by rw [h index hindex]; exact .nil, fun _ => by rw [h index hindex]; exact .nil,
    fun entry => by simp [h index hindex], fun _ _ hrow => by cases hrow⟩

/-- Two rows are stored, one is renumbered and the other removed. -/
theorem run_keeps_images_longIndex :
    ∃ indexes, [.insert { page := 5, slot := 0 } [.long 5],
      .insert { page := 5, slot := 1 } [.long 7], .replace { page := 5, slot := 0 } [.long 9] none,
        .remove { page := 5, slot := 1 }].foldlM IndexCall.apply [longIndex] = .ok indexes ∧
      Ordered indexes (Function.update (Function.update (Function.update (Function.update
        (fun _ => none) { page := 5, slot := 0 } (some [.long 5])) { page := 5, slot := 1 }
        (some [.long 7])) { page := 5, slot := 0 } (some [.long 9])) { page := 5, slot := 1 }
          none) := by
  obtain ⟨indexes, hrun⟩ : ∃ indexes, [.insert { page := 5, slot := 0 } [.long 5],
      .insert { page := 5, slot := 1 } [.long 7], .replace { page := 5, slot := 0 } [.long 9] none,
      .remove { page := 5, slot := 1 }].foldlM IndexCall.apply [longIndex] = .ok indexes :=
    exists_ok (by decide +kernel)
  have hclear : ∀ rows, ∀ index ∈ [longIndex], index.Clear rows := by
    simpa using clear_longIndex
  have himages : Indexes.AreImages [longIndex] fun _ => none :=
    areImages_of_no_entries (by simp [longIndex])
  refine ⟨indexes, hrun, run_keeps_images himages ?_ ?_ hrun⟩
  · simp [RunsFresh, IndexCall.Fresh, IndexCall.after]
  · exact ⟨hclear _, hclear _, hclear _, hclear _, hclear _⟩

/-! ## A shadowed key -/

/-- A text of 251 characters and 252 weights: its key has 254 bytes. -/
def shadowingText : List UInt8 := 0xdf :: List.replicate 250 0x62

/-- The same text and four characters whose weights, with the byte that ends them, have the
checksum zero: its key is cut to the same 253 bytes and ends in two zero bytes. -/
def shadowedText : List UInt8 := shadowingText ++ [0x30, 0x21, 0x51, 0x48]

/-- An index of a text column. -/
def textIndex : MutableIndex :=
  { longIndex with
    fields := [{ column := 0, direction := .ascending, kind := .text 255 .general }] }

/-- A unique index admits a key twice: the entry of the longer text, on a lower page, stands before
that of the shorter one, and the search by key stops at it. -/
theorem run_admits_duplicate :
    ¬∀ (indexes indexes' : Indexes) (rows : Rows) (calls : List IndexCall),
      indexes.AreImages rows → RunsFresh rows calls →
      calls.foldlM IndexCall.apply indexes = .ok indexes' →
      indexes'.Ordered (calls.foldl IndexCall.after rows) := by
  intro h
  let calls : List IndexCall := [.insert { page := 5, slot := 0 } [.text shadowedText],
    .insert { page := 65536, slot := 0 } [.text shadowingText],
    .insert { page := 65537, slot := 0 } [.text shadowingText]]
  obtain ⟨indexes, hrun⟩ : ∃ indexes, calls.foldlM IndexCall.apply [textIndex] = .ok indexes :=
    exists_ok (by decide +kernel)
  have hordered := h [textIndex] indexes (fun _ => none) calls
    (areImages_of_no_entries (by simp [textIndex, longIndex]))
    (by simp [calls, RunsFresh, IndexCall.Fresh, IndexCall.after]) hrun
  have hduplicate := forall_ok (p := fun indexes : Indexes => indexes.any fun index =>
    index.unique && decide (¬index.entries.Pairwise fun a b =>
      a.hasNull = false → b.hasNull = false → a.key ≠ b.key)) (by decide +kernel) _ hrun
  simp only [List.any_eq_true, Bool.and_eq_true, decide_eq_true_eq] at hduplicate
  obtain ⟨index, hindex, hunique, hduplicate⟩ := hduplicate
  exact hduplicate ((hordered.images index hindex).unique hunique)

end Indexes

end Jet3
