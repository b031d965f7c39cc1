import Jet3.Library.Reader
import Mathlib.Algebra.BigOperators.Group.List.Basic

/-!
# Fields of a record

Several fields written into one list of bytes, and several items assigned to the places of a list.

* `overwriteAll` writes fields one after another; `take_drop_overwriteAll` says that a field no
  other one meets is read back;
* `assignAll` assigns items to places; `getElem?_assignAll` says that each place has its own item,
  and `sum_assignAll` what the items of all places weigh.
-/

namespace Fields

/-! ## One field -/

theorem length_overwrite {bytes field : List UInt8} {offset : ℕ}
    (h : offset + field.length ≤ bytes.length) :
    (overwrite bytes offset field).length = bytes.length := by
  simp only [overwrite, List.length_append, List.length_take, List.length_drop]
  omega

/-- Bytes outside of the field stay. -/
theorem getElem?_overwrite_of_outside {bytes field : List UInt8} {offset i : ℕ}
    (h : offset + field.length ≤ bytes.length) (hi : i < offset ∨ offset + field.length ≤ i) :
    (overwrite bytes offset field)[i]? = bytes[i]? := by
  have hlen : (bytes.take offset).length = offset := by
    rw [List.length_take]
    omega
  rcases hi with hi | hi
  · rw [overwrite, List.getElem?_append_left (by omega), List.getElem?_take_of_lt hi]
  · rw [overwrite, List.getElem?_append_right (by omega), hlen,
      List.getElem?_append_right (by omega), List.getElem?_drop]
    congr 1
    omega

/-- Bytes that agree at every position of a range are the same range. -/
theorem take_drop_congr {bytes bytes' : List UInt8} {offset width : ℕ}
    (h : ∀ i < width, bytes[offset + i]? = bytes'[offset + i]?) :
    (bytes.drop offset).take width = (bytes'.drop offset).take width := by
  ext1 i
  rw [List.getElem?_take, List.getElem?_take]
  split
  next hi => rw [List.getElem?_drop, List.getElem?_drop, h i hi]
  next => rfl

/-- A field is read back where it was written. -/
theorem take_drop_overwrite {bytes field : List UInt8} {offset : ℕ}
    (h : offset + field.length ≤ bytes.length) :
    ((overwrite bytes offset field).drop offset).take field.length = field := by
  have hlen : (bytes.take offset).length = offset := by
    rw [List.length_take]
    omega
  rw [overwrite, List.drop_left' hlen, List.take_left' rfl]

/-- A range the field does not meet is left as it was. -/
theorem take_drop_overwrite_of_outside {bytes field : List UInt8} {offset start width : ℕ}
    (h : offset + field.length ≤ bytes.length)
    (hapart : start + width ≤ offset ∨ offset + field.length ≤ start) :
    ((overwrite bytes offset field).drop start).take width = (bytes.drop start).take width :=
  take_drop_congr fun i hi => getElem?_overwrite_of_outside h (by omega)

/-! ## Several fields -/

/-- Two fields that do not meet. -/
def Apart (a b : ℕ × List UInt8) : Prop :=
  a.1 + a.2.length ≤ b.1 ∨ b.1 + b.2.length ≤ a.1

/-- Writes each field at its offset. -/
def overwriteAll (bytes : List UInt8) (writes : List (ℕ × List UInt8)) : List UInt8 :=
  writes.foldl (fun bytes write => overwrite bytes write.1 write.2) bytes

/-- The fields that lie in `n` bytes. -/
def Within (n : ℕ) (writes : List (ℕ × List UInt8)) : Prop :=
  ∀ write ∈ writes, write.1 + write.2.length ≤ n

/-- The writes behind the first one. -/
theorem Within.tail {n : ℕ} {write : ℕ × List UInt8} {writes : List (ℕ × List UInt8)}
    (h : Within n (write :: writes)) : write.1 + write.2.length ≤ n ∧ Within n writes :=
  List.forall_mem_cons.mp h

/-- Writes within a byte string leave its length as it is. -/
theorem length_overwriteAll {bytes : List UInt8} {writes : List (ℕ × List UInt8)}
    (h : Within bytes.length writes) : (overwriteAll bytes writes).length = bytes.length := by
  induction writes generalizing bytes with
  | nil => rfl
  | cons write writes ih =>
    obtain ⟨hhead, htail⟩ := h.tail
    have hlen := length_overwrite hhead
    rw [overwriteAll, List.foldl_cons, ← overwriteAll, ih (hlen ▸ htail), hlen]

/-- A range that no field meets is left as it was. -/
theorem take_drop_overwriteAll_of_outside {bytes : List UInt8} {writes : List (ℕ × List UInt8)}
    {start width : ℕ} (h : Within bytes.length writes)
    (hapart : ∀ write ∈ writes, start + width ≤ write.1 ∨ write.1 + write.2.length ≤ start) :
    ((overwriteAll bytes writes).drop start).take width = (bytes.drop start).take width := by
  induction writes generalizing bytes with
  | nil => rfl
  | cons write writes ih =>
    obtain ⟨hhead, htail⟩ := h.tail
    obtain ⟨hwrite, hrest⟩ := List.forall_mem_cons.mp hapart
    rw [overwriteAll, List.foldl_cons, ← overwriteAll, ih (length_overwrite hhead ▸ htail) hrest,
      take_drop_overwrite_of_outside hhead hwrite]

/-- A field that no other one meets is read back. -/
theorem take_drop_overwriteAll {bytes : List UInt8} {writes : List (ℕ × List UInt8)}
    {write : ℕ × List UInt8} (h : Within bytes.length writes) (hapart : writes.Pairwise Apart)
    (hmem : write ∈ writes) :
    ((overwriteAll bytes writes).drop write.1).take write.2.length = write.2 := by
  induction writes generalizing bytes with
  | nil => cases hmem
  | cons first writes ih =>
    obtain ⟨hhead, htail⟩ := h.tail
    obtain ⟨hfirst, hrest⟩ := List.pairwise_cons.mp hapart
    rw [overwriteAll, List.foldl_cons, ← overwriteAll]
    rcases List.mem_cons.mp hmem with rfl | hmem
    · -- the fields written after it leave it alone
      rw [take_drop_overwriteAll_of_outside (length_overwrite hhead ▸ htail) hfirst,
        take_drop_overwrite hhead]
    · exact ih (length_overwrite hhead ▸ htail) hrest hmem

/-! ## Places -/

section Places

variable {α : Type}

/-- Assigns each item to its place. -/
def assignAll (places : List (Option α)) (items : List (ℕ × α)) : List (Option α) :=
  items.foldl (fun places item => places.set item.1 (some item.2)) places

@[simp]
theorem length_assignAll (places : List (Option α)) (items : List (ℕ × α)) :
    (assignAll places items).length = places.length := by
  induction items generalizing places with
  | nil => rfl
  | cons item items ih =>
    rw [assignAll, List.foldl_cons, ← assignAll, ih, List.length_set]

/-- A place that no item is for stays. -/
theorem getElem?_assignAll_of_notMem {places : List (Option α)} {items : List (ℕ × α)} {i : ℕ}
    (h : i ∉ items.map Prod.fst) : (assignAll places items)[i]? = places[i]? := by
  induction items generalizing places with
  | nil => rfl
  | cons item items ih =>
    rw [List.map_cons, List.mem_cons, not_or] at h
    rw [assignAll, List.foldl_cons, ← assignAll, ih h.2, List.getElem?_set_ne (Ne.symm h.1)]

/-- Where no place is assigned twice, each has its own item. -/
theorem getElem?_assignAll {places : List (Option α)} {items : List (ℕ × α)} {item : ℕ × α}
    (hnodup : (items.map Prod.fst).Nodup) (hmem : item ∈ items) (hlt : item.1 < places.length) :
    (assignAll places items)[item.1]? = some (some item.2) := by
  induction items generalizing places with
  | nil => cases hmem
  | cons first items ih =>
    rw [List.map_cons, List.nodup_cons] at hnodup
    rw [assignAll, List.foldl_cons, ← assignAll]
    rcases List.mem_cons.mp hmem with rfl | hmem
    · rw [getElem?_assignAll_of_notMem hnodup.1, List.getElem?_set_self hlt]
    · exact ih hnodup.2 hmem (by rwa [List.length_set])

/-- The places weigh what the assigned items do, where the places were empty before. -/
theorem sum_assignAll {places : List (Option α)} {items : List (ℕ × α)} (weight : Option α → ℕ)
    (hnone : weight none = 0) (hnodup : (items.map Prod.fst).Nodup)
    (hempty : ∀ item ∈ items, places[item.1]? = some none) :
    ((assignAll places items).map weight).sum =
      (places.map weight).sum + (items.map fun item => weight (some item.2)).sum := by
  induction items generalizing places with
  | nil => simp [assignAll]
  | cons item items ih =>
    rw [List.map_cons, List.nodup_cons] at hnodup
    obtain ⟨hfirst, hrest⟩ := List.forall_mem_cons.mp hempty
    obtain ⟨hlt, hget⟩ := List.getElem?_eq_some_iff.mp hfirst
    have hset : ((places.set item.1 (some item.2)).map weight).sum =
        (places.map weight).sum + weight (some item.2) := by
      have hold : (places.map weight).sum =
          ((places.map weight).take item.1).sum + (weight none +
            ((places.map weight).drop (item.1 + 1)).sum) := by
        conv_lhs => rw [← List.take_append_drop item.1 (places.map weight)]
        rw [List.sum_append, List.drop_eq_getElem_cons (by rwa [List.length_map]), List.sum_cons,
          List.getElem_map, hget]
      rw [List.map_set, List.sum_set, if_pos (by rwa [List.length_map]), hold, hnone]
      omega
    rw [assignAll, List.foldl_cons, ← assignAll, ih hnodup.2 fun other hother =>
      ?_, hset, List.map_cons, List.sum_cons, Nat.add_assoc]
    have hne : item.1 ≠ other.1 := fun heq =>
      hnodup.1 (List.mem_map.mpr ⟨other, hother, heq.symm⟩)
    rw [List.getElem?_set_ne hne]
    exact hrest other hother

end Places

end Fields
