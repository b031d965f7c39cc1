import Mathlib.Data.List.Basic
import Mathlib.Data.List.Range
import Mathlib.Tactic.Ring

/-!
# Tilings

Half-open ranges of numbers that follow one another without a gap.

* `Tiles a b ranges` says that the ranges lead from `a` to `b`;
* `Tiles.flatMap_slice` says that the slices of a list at the ranges are the slice from `a` to `b`,
  and `Tiles.flatMap_range'` the same of the numbers themselves;
* `Tiles.group` joins neighbours: ranges that tile the positions of a tiling make a coarser one.
-/

namespace Tiling

/-- The ranges follow one another from `a` to `b`. -/
def Tiles : ℕ → ℕ → List (ℕ × ℕ) → Prop
  | a, b, [] => a = b
  | a, b, range :: ranges => range.1 = a ∧ a ≤ range.2 ∧ Tiles range.2 b ranges

namespace Tiles

variable {a b c : ℕ} {ranges ranges' : List (ℕ × ℕ)}

/-- Tilings of neighbouring ranges make one. -/
theorem append (h : Tiles a b ranges) (h' : Tiles b c ranges') : Tiles a c (ranges ++ ranges') := by
  induction ranges generalizing a with
  | nil =>
    rw [Tiles] at h
    exact h ▸ h'
  | cons range ranges ih =>
    obtain ⟨hstart, hle, hrest⟩ := h
    exact ⟨hstart, hle, ih hrest⟩

/-- One more range at the end. -/
theorem snoc (h : Tiles a b ranges) (hle : b ≤ c) : Tiles a c (ranges ++ [(b, c)]) :=
  h.append ⟨rfl, hle, rfl⟩

/-- A tiling is split at any of its ranges. -/
theorem of_append (h : Tiles a c (ranges ++ ranges')) :
    ∃ b, Tiles a b ranges ∧ Tiles b c ranges' := by
  induction ranges generalizing a with
  | nil => exact ⟨a, rfl, h⟩
  | cons range ranges ih =>
    obtain ⟨hstart, hle, hrest⟩ := h
    obtain ⟨b, hleft, hright⟩ := ih hrest
    exact ⟨b, ⟨hstart, hle, hleft⟩, hright⟩

/-- A tiling goes upwards. -/
theorem le (h : Tiles a b ranges) : a ≤ b := by
  induction ranges generalizing a with
  | nil => exact le_of_eq h
  | cons range ranges ih =>
    obtain ⟨-, hle, hrest⟩ := h
    exact hle.trans (ih hrest)

/-- A range of a tiling lies in what is tiled. -/
theorem mem (h : Tiles a b ranges) {range : ℕ × ℕ} (hmem : range ∈ ranges) :
    a ≤ range.1 ∧ range.1 ≤ range.2 ∧ range.2 ≤ b := by
  induction ranges generalizing a with
  | nil => cases hmem
  | cons first ranges ih =>
    obtain ⟨hstart, hle, hrest⟩ := h
    rcases List.mem_cons.mp hmem with rfl | hmem
    · exact ⟨hstart.ge, hstart ▸ hle, hrest.le⟩
    · obtain ⟨hlow, hself, hhigh⟩ := ih hrest hmem
      exact ⟨hle.trans hlow, hself, hhigh⟩

/-- The slices of a list at the ranges, one behind the other. -/
theorem flatMap_slice {α : Type*} (l : List α) (h : Tiles a b ranges) :
    (ranges.flatMap fun range => (l.drop range.1).take (range.2 - range.1)) =
      (l.drop a).take (b - a) := by
  induction ranges generalizing a with
  | nil =>
    rw [Tiles] at h
    simp [h]
  | cons range ranges ih =>
    obtain ⟨hstart, hle, hrest⟩ := h
    have hsum : b - a = range.2 - a + (b - range.2) := by
      have := hrest.le
      omega
    have hdrop : (l.drop a).drop (range.2 - a) = l.drop range.2 := by
      rw [List.drop_drop, Nat.add_sub_cancel' hle]
    rw [List.flatMap_cons, ih hrest, hstart, hsum, List.take_add, hdrop]

/-- The numbers of the ranges, one behind the other. -/
theorem flatMap_range' (h : Tiles a b ranges) :
    (ranges.flatMap fun range => List.range' range.1 (range.2 - range.1)) =
      List.range' a (b - a) := by
  have hslice := h.flatMap_slice (List.range' 0 b)
  have hrange : ∀ s t, t ≤ b → ((List.range' 0 b).drop s).take (t - s) = List.range' s (t - s) := by
    intro s t ht
    rw [List.drop_range', List.take_range'_of_length_ge (by omega), Nat.zero_add, Nat.mul_one]
  rw [hrange a b le_rfl] at hslice
  rw [← hslice]
  refine List.flatMap_congr fun range hrange' => ?_
  exact (hrange range.1 range.2 (h.mem hrange').2.2).symm

/-- There are no more ranges than their common width allows. -/
theorem length_mul_le (h : Tiles a b ranges) (n : ℕ)
    (hwide : ∀ range ∈ ranges, range.1 + n ≤ range.2) :
    a + ranges.length * n ≤ b := by
  induction ranges generalizing a with
  | nil =>
    rw [Tiles] at h
    simp [h]
  | cons range ranges ih =>
    obtain ⟨hstart, -, hrest⟩ := h
    obtain ⟨hfirst, hwide⟩ := List.forall_mem_cons.mp hwide
    have hle := ih hrest hwide
    rw [List.length_cons, Nat.add_one_mul]
    omega

/-- A tiling begins at its start. -/
theorem first_eq (h : Tiles a b ranges) {range : ℕ × ℕ} (hfirst : ranges.head? = some range) :
    range.1 = a := by
  cases ranges with
  | nil => cases hfirst
  | cons first ranges =>
    rw [List.head?_cons, Option.some.injEq] at hfirst
    rw [← hfirst]
    exact h.1

/-- A tiling ends at its end. -/
theorem last_eq (h : Tiles a b ranges) {range : ℕ × ℕ} (hlast : ranges.getLast? = some range) :
    range.2 = b := by
  obtain ⟨front, rfl⟩ := List.getLast?_eq_some_iff.mp hlast
  obtain ⟨c, -, -, -, hend⟩ := h.of_append
  exact hend

/-- Neighbours of a tiling that are joined tile the same range. The groups tile the positions of the
joined ranges. -/
theorem group {f : ℕ → ℕ × ℕ} {start count : ℕ} {groups : List (ℕ × ℕ)}
    (h : Tiles a b ((List.range' start count).map f)) (hgroups : Tiles start (start + count) groups)
    (hne : ∀ g ∈ groups, g.1 < g.2) :
    Tiles a b (groups.map fun g => ((f g.1).1, (f (g.2 - 1)).2)) := by
  induction groups generalizing a start count with
  | nil =>
    rw [Tiles] at hgroups
    obtain rfl : count = 0 := by omega
    exact h
  | cons g groups ih =>
    obtain ⟨hstart, hle, hrest⟩ := hgroups
    obtain ⟨hg, hgroups'⟩ := List.forall_mem_cons.mp hne
    have hend := hrest.le
    obtain ⟨n, hn⟩ : ∃ n, g.2 = start + (n + 1) := ⟨g.2 - start - 1, by omega⟩
    obtain ⟨m, rfl⟩ : ∃ m, count = n + 1 + m := ⟨count - (n + 1), by omega⟩
    -- the ranges of the first group, and those behind it
    rw [← List.range'_append_1, List.map_append] at h
    obtain ⟨c, hleft, hright⟩ := h.of_append
    have hfirst : (f start).1 = a :=
      hleft.first_eq (by rw [List.range'_succ, List.map_cons, List.head?_cons])
    have hlast : (f (start + n)).2 = c := hleft.last_eq (by
      rw [List.range'_1_concat, List.map_append, List.map_singleton, List.getLast?_concat])
    have hg2 : g.2 - 1 = start + n := by omega
    rw [List.map_cons, hstart, hg2, hfirst, hlast]
    refine ⟨rfl, hleft.le, ih hright ?_ hgroups'⟩
    rw [hn, ← Nat.add_assoc start (n + 1) m] at hrest
    exact hrest

end Tiles

end Tiling
