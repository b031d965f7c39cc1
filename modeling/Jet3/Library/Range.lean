import Jet3.Library.Reader

/-!
# Reading at positions

A parser that keeps a position reads ranges and numbers of the bytes and refuses what lies beyond
their end.

* `getRange` is a checked slice, and `numberAt` a checked little-endian number;
* `getRange_add_iff` says what a slice at a position is: what the rest of the bytes begins with.
-/

namespace ByteRange

variable {data bytes : List UInt8}

/-- The bytes from `start` to `stop`, when there are that many. -/
def getRange (data : List UInt8) (start stop : ℕ) : Option (List UInt8) :=
  if start ≤ stop ∧ stop ≤ data.length then some ((data.drop start).take (stop - start)) else none

/-- The number of `width` bytes at `offset`, when they are there. -/
def numberAt (data : List UInt8) (offset width : ℕ) : Option ℕ :=
  (getRange data offset (offset + width)).map leValue

/-- A range of bytes, where both ends are inside. -/
theorem getRange_eq_some_iff {start stop : ℕ} :
    getRange data start stop = some bytes ↔
      start ≤ stop ∧ stop ≤ data.length ∧ (data.drop start).take (stop - start) = bytes := by
  unfold getRange
  split
  next h => simp [h]
  next h =>
    simp only [reduceCtorEq, false_iff, not_and]
    exact fun hstart hstop => absurd ⟨hstart, hstop⟩ h

/-- A slice that is there is what the rest of the bytes begins with. -/
theorem getRange_add_iff {start n : ℕ} (hstart : start ≤ data.length) :
    getRange data start (start + n) = some bytes ↔
      bytes.length = n ∧ data.drop start = bytes ++ data.drop (start + n) := by
  rw [getRange_eq_some_iff, Nat.add_sub_cancel_left]
  constructor
  · rintro ⟨-, hstop, rfl⟩
    refine ⟨?_, ?_⟩
    · rw [List.length_take, List.length_drop]
      omega
    · rw [← List.drop_drop, List.take_append_drop]
  · rintro ⟨hlen, hdrop⟩
    have htotal := congrArg List.length hdrop
    rw [List.length_append, List.length_drop, List.length_drop, hlen] at htotal
    refine ⟨Nat.le_add_right _ _, by omega, ?_⟩
    rw [hdrop, List.take_left' hlen]

theorem length_getRange {start stop : ℕ} (h : getRange data start stop = some bytes) :
    bytes.length = stop - start := by
  obtain ⟨hstart, hstop, rfl⟩ := getRange_eq_some_iff.mp h
  rw [List.length_take, List.length_drop]
  omega

/-- A number, where all its bytes are inside. -/
theorem numberAt_eq_some_iff {offset width n : ℕ} :
    numberAt data offset width = some n ↔
      offset + width ≤ data.length ∧ leAt data offset width = n := by
  rw [numberAt, Option.map_eq_some_iff]
  constructor
  · rintro ⟨field, hfield, rfl⟩
    obtain ⟨-, hstop, rfl⟩ := getRange_eq_some_iff.mp hfield
    rw [Nat.add_sub_cancel_left]
    exact ⟨hstop, rfl⟩
  · rintro ⟨hstop, rfl⟩
    refine ⟨_, getRange_eq_some_iff.mpr ⟨Nat.le_add_right _ _, hstop, rfl⟩, ?_⟩
    rw [Nat.add_sub_cancel_left, leAt]

theorem numberAt_lt {offset width n : ℕ} (h : numberAt data offset width = some n) :
    n < 256 ^ width := by
  obtain ⟨-, rfl⟩ := numberAt_eq_some_iff.mp h
  exact leAt_lt _ _ _

/-- A number that is there is what the rest of the bytes begins with. -/
theorem numberAt_iff {offset width n : ℕ} (hoffset : offset ≤ data.length) (hn : n < 256 ^ width) :
    numberAt data offset width = some n ↔
      data.drop offset = leBytes width n ++ data.drop (offset + width) := by
  constructor
  · intro h
    obtain ⟨hstop, rfl⟩ := numberAt_eq_some_iff.mp h
    rw [leBytes_leAt hstop, ← List.drop_drop, List.take_append_drop]
  · intro h
    have htotal := congrArg List.length h
    rw [List.length_append, List.length_drop, List.length_drop, length_leBytes] at htotal
    refine numberAt_eq_some_iff.mpr ⟨by omega, ?_⟩
    rw [leAt, h, List.take_left' (length_leBytes _ _), leValue_leBytes_of_lt hn]

end ByteRange
