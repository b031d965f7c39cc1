import Mathlib.Data.List.Range
import Mathlib.Data.Nat.Notation

/-!
# Chunks of a byte string

`chunks size items` are the pieces `slice::chunks` yields: `size` items each, the last may be
shorter.

* `chunks_of_ne_nil` unfolds one piece;
* `flatten_chunks` says that the pieces make up the list.
-/

namespace Jet3

/-- The pieces of a list, `size` items each; the last may be shorter. -/
def chunks (size : ℕ) (items : List UInt8) : List (List UInt8) :=
  (List.range ((items.length + size - 1) / size)).map fun n => (items.drop (n * size)).take size

variable {size : ℕ} {items : List UInt8}

/-- The count of the pieces, of which the last may be shorter. -/
theorem length_chunks (size : ℕ) (items : List UInt8) :
    (chunks size items).length = (items.length + size - 1) / size := by
  rw [chunks, List.length_map, List.length_range]

/-- Nothing has no pieces. -/
theorem chunks_nil (hsize : 0 < size) : chunks size [] = [] := by
  have hcount : (0 + size - 1) / size = 0 := Nat.div_eq_of_lt (by omega)
  rw [chunks, List.length_nil, hcount, List.range_zero, List.map_nil]

/-- The first piece, and the pieces of what is left. -/
theorem chunks_of_ne_nil (hsize : 0 < size) (h : items ≠ []) :
    chunks size items = items.take size :: chunks size (items.drop size) := by
  have hlength : 0 < items.length := List.length_pos_of_ne_nil h
  have hcount : (items.length + size - 1) / size = (items.length - size + size - 1) / size + 1 := by
    rcases Nat.le_total items.length size with hle | hle
    · have hone : (items.length + size - 1) / size = 1 :=
        Nat.div_eq_of_lt_le (by omega) (by omega)
      rw [hone, Nat.sub_eq_zero_of_le hle, Nat.zero_add,
        Nat.div_eq_of_lt (show size - 1 < size by omega)]
    · rw [← Nat.add_div_right _ hsize]
      congr 1
      omega
  rw [chunks, hcount, List.range_succ_eq_map, List.map_cons, List.map_map, Nat.zero_mul,
    List.drop_zero, chunks, List.length_drop]
  congr 1
  refine List.map_congr_left fun n _ => ?_
  rw [Function.comp_apply, List.drop_drop, Nat.succ_mul, Nat.add_comm]

/-- A statement about the pieces of a list holds if it holds of no pieces and is kept by a first
one. -/
theorem chunks_induction {motive : List UInt8 → List (List UInt8) → Prop} (hsize : 0 < size)
    (nil : motive [] [])
    (cons : ∀ items, items ≠ [] →
      motive (items.drop size) (chunks size (items.drop size)) →
      motive items (items.take size :: chunks size (items.drop size)))
    (items : List UInt8) : motive items (chunks size items) := by
  induction hn : items.length using Nat.strong_induction_on generalizing items with
  | _ n ih =>
    by_cases h : items = []
    · rw [h, chunks_nil hsize]
      exact nil
    · have hlength : 0 < items.length := List.length_pos_of_ne_nil h
      rw [chunks_of_ne_nil hsize h]
      exact cons items h (ih _ (by rw [List.length_drop]; omega) _ rfl)

/-- The pieces make up the list. -/
theorem flatten_chunks (hsize : 0 < size) (items : List UInt8) :
    (chunks size items).flatten = items := by
  induction items using chunks_induction hsize with
  | nil => rfl
  | cons items _ ih => rw [List.flatten_cons, ih, List.take_append_drop]

end Jet3
