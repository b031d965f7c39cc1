import Mathlib.Data.Nat.Digits.Defs
import Mathlib.Data.List.Range
import Mathlib.Tactic.Ring

/-!
# Byte blocks

Fixed-size blocks of bytes with range reads and range writes, and fixed-width little-endian
numbers inside them.

* `leBytes w n` are the `w` little-endian bytes of `n`, and `leValue` reads bytes back:
  `leValue_leBytes` says the round trip is `n % 256 ^ w`.
* `Block n` is a block of `n` bytes. `get` reads one byte, `slice` a range and `write` overlays
  bytes at an offset. A write is characterised byte by byte (`get_write`), and every other fact
  (`slice_write_self`, `slice_write_of_disjoint`) follows from that.
-/

/-- Byte strings are compared byte by byte. -/
instance lawfulBEqBytes : LawfulBEq (List UInt8) :=
  inferInstance

/-! ## Little-endian numbers -/

/-- The `w` little-endian bytes of `n`; higher bytes are dropped. -/
def leBytes : ℕ → ℕ → List UInt8
  | 0, _ => []
  | w + 1, n => UInt8.ofNat n :: leBytes w (n / 256)

/-- The number whose little-endian bytes are given. -/
def leValue : List UInt8 → ℕ
  | [] => 0
  | b :: bs => b.toNat + 256 * leValue bs

/-- The `w` big-endian bytes of `n`. -/
def beBytes (w n : ℕ) : List UInt8 :=
  (leBytes w n).reverse

/-- The number whose big-endian bytes are given. -/
def beValue (bytes : List UInt8) : ℕ :=
  leValue bytes.reverse

@[simp]
theorem length_leBytes (w n : ℕ) : (leBytes w n).length = w := by
  induction w generalizing n with
  | zero => rfl
  | succ w ih => simp [leBytes, ih]

@[simp]
theorem length_beBytes (w n : ℕ) : (beBytes w n).length = w := by
  simp [beBytes]

/-- Reading back `w` little-endian bytes gives the number modulo `256 ^ w`. -/
theorem leValue_leBytes (w n : ℕ) : leValue (leBytes w n) = n % 256 ^ w := by
  induction w generalizing n with
  | zero => simp [leBytes, leValue, Nat.mod_one]
  | succ w ih =>
    rw [leBytes, leValue, ih, pow_succ', Nat.mod_mul]
    simp

/-- A number that fits is read back. -/
theorem leValue_leBytes_of_lt {w n : ℕ} (h : n < 256 ^ w) : leValue (leBytes w n) = n := by
  rw [leValue_leBytes, Nat.mod_eq_of_lt h]

/-- A number of so many bytes is below their power. -/
theorem leValue_lt (bytes : List UInt8) : leValue bytes < 256 ^ bytes.length := by
  induction bytes with
  | nil => simp [leValue]
  | cons b bs ih =>
    have hb : b.toNat < 256 := b.toNat_lt
    rw [leValue, List.length_cons, pow_succ]
    omega

/-- The bytes of a number are recovered from their value. -/
theorem leBytes_leValue (bytes : List UInt8) : leBytes bytes.length (leValue bytes) = bytes := by
  induction bytes with
  | nil => rfl
  | cons b bs ih =>
    have hb : b.toNat < 256 := b.toNat_lt
    have hdiv : (b.toNat + 256 * leValue bs) / 256 = leValue bs := by omega
    have hmod : UInt8.ofNat (b.toNat + 256 * leValue bs) = b := by
      apply UInt8.toNat_inj.mp
      rw [UInt8.toNat_ofNat']
      omega
    rw [List.length_cons, leBytes, leValue, hdiv, hmod, ih]

/-- A number that fits is read back in the other byte order. -/
theorem beValue_beBytes_of_lt {w n : ℕ} (h : n < 256 ^ w) : beValue (beBytes w n) = n := by
  rw [beValue, beBytes, List.reverse_reverse, leValue_leBytes_of_lt h]

/-! ## Blocks -/

/-- A block of `n` bytes. -/
def Block (n : ℕ) : Type := Fin n → UInt8

namespace Block

variable {n : ℕ}

/-- The byte at `i`; zero beyond the end. -/
def get (b : Block n) (i : ℕ) : UInt8 :=
  if h : i < n then b ⟨i, h⟩ else 0

/-- The bytes of the half-open range `[start, stop)`. -/
def slice (b : Block n) (start stop : ℕ) : List UInt8 :=
  (List.range' start (stop - start)).map b.get

/-- Overlays `bytes` at `offset`; what would lie beyond the end is dropped. -/
def write (b : Block n) (offset : ℕ) (bytes : List UInt8) : Block n := fun i =>
  if offset ≤ i ∧ i < offset + bytes.length then bytes.getD (i - offset) 0 else b i

/-- The `w`-byte little-endian number at `offset`. -/
def le (b : Block n) (offset w : ℕ) : ℕ :=
  leValue (b.slice offset (offset + w))

/-- A block filled with one byte. -/
def fill (n : ℕ) (byte : UInt8) : Block n := fun _ => byte

/-- Blocks are equal when they agree at every offset. -/
theorem ext_get {a b : Block n} (h : ∀ i < n, a.get i = b.get i) : a = b := by
  funext i
  have hi := h i i.isLt
  simpa [get, i.isLt] using hi

@[simp]
theorem get_fill {byte : UInt8} {i : ℕ} (h : i < n) : (fill n byte).get i = byte := by
  simp [get, fill, h]

/-- A write is visible at its offsets and nowhere else. -/
theorem get_write (b : Block n) (offset : ℕ) (bytes : List UInt8) (i : ℕ) :
    (b.write offset bytes).get i =
      if offset ≤ i ∧ i < offset + bytes.length ∧ i < n then bytes.getD (i - offset) 0
      else b.get i := by
  unfold get write
  by_cases h : i < n <;> simp [h]

/-- A byte that was written. -/
theorem get_write_of_mem {b : Block n} {offset : ℕ} {bytes : List UInt8} {i : ℕ}
    (hlo : offset ≤ i) (hhi : i < offset + bytes.length) (hn : i < n) :
    (b.write offset bytes).get i = bytes.getD (i - offset) 0 := by
  rw [get_write, if_pos ⟨hlo, hhi, hn⟩]

/-- A byte outside of what was written. -/
theorem get_write_of_notMem {b : Block n} {offset : ℕ} {bytes : List UInt8} {i : ℕ}
    (h : i < offset ∨ offset + bytes.length ≤ i) :
    (b.write offset bytes).get i = b.get i := by
  rw [get_write, if_neg (by omega)]

@[simp]
theorem length_slice (b : Block n) (start stop : ℕ) :
    (b.slice start stop).length = stop - start := by
  simp [slice]

/-- A byte of a slice. -/
theorem getElem?_slice (b : Block n) {start stop i : ℕ} (h : start + i < stop) :
    (b.slice start stop)[i]? = some (b.get (start + i)) := by
  have hi : i < stop - start := by omega
  simp [slice, hi]

theorem getD_slice (b : Block n) {start stop i : ℕ} (h : start + i < stop) :
    (b.slice start stop).getD i 0 = b.get (start + i) := by
  rw [List.getD_eq_getElem?_getD, getElem?_slice b h, Option.getD_some]

/-- The end of a slice is a slice. -/
theorem drop_slice (b : Block n) {start stop offset : ℕ} :
    (b.slice start stop).drop offset = b.slice (start + offset) stop := by
  rw [slice, slice, ← List.map_drop, List.drop_range', Nat.mul_one, Nat.sub_add_eq]

/-- A piece of a slice is a slice. -/
theorem take_drop_slice (b : Block n) {start stop offset len : ℕ}
    (h : start + offset + len ≤ stop) :
    ((b.slice start stop).drop offset).take len =
      b.slice (start + offset) (start + offset + len) := by
  apply List.ext_getElem?
  intro i
  by_cases hi : i < len
  · rw [List.getElem?_take_of_lt hi, List.getElem?_drop, getElem?_slice b (by omega),
      getElem?_slice b (by omega), Nat.add_assoc]
  · rw [List.getElem?_eq_none (by simp; omega), List.getElem?_eq_none (by simp; omega)]

/-- A slice is split at any offset inside it. -/
theorem slice_append_slice (b : Block n) {start mid stop : ℕ} (hstart : start ≤ mid)
    (hstop : mid ≤ stop) :
    b.slice start mid ++ b.slice mid stop = b.slice start stop := by
  rw [slice, slice, slice, ← List.map_append]
  congr 1
  have hmid : mid = start + 1 * (mid - start) := by omega
  have hlen : stop - start = (mid - start) + (stop - mid) := by omega
  rw [hlen]
  nth_rewrite 2 [hmid]
  exact List.range'_append

/-- A slice is determined by the bytes of its range. -/
theorem slice_congr {a b : Block n} {s t start stop : ℕ} (hlen : t - s = stop - start)
    (h : ∀ i < t - s, a.get (s + i) = b.get (start + i)) : a.slice s t = b.slice start stop := by
  apply List.ext_getElem?
  intro i
  by_cases hi : i < t - s
  · rw [getElem?_slice a (by omega), getElem?_slice b (by omega), h i hi]
  · rw [List.getElem?_eq_none (by simpa using hi),
      List.getElem?_eq_none (by simp; omega)]

/-- A slice whose bytes are those of a list is that list. -/
theorem slice_eq_of_getD {b : Block n} {start stop : ℕ} {bytes : List UInt8}
    (hlen : bytes.length = stop - start)
    (h : ∀ i < stop - start, b.get (start + i) = bytes.getD i 0) :
    b.slice start stop = bytes := by
  apply List.ext_getElem?
  intro i
  by_cases hi : i < stop - start
  · rw [getElem?_slice b (by omega), h i hi, List.getD_eq_getElem?_getD,
      List.getElem?_eq_getElem (by omega), Option.getD_some]
  · rw [List.getElem?_eq_none (by simpa using hi), List.getElem?_eq_none (by omega)]

/-- What was written is read back. -/
theorem slice_write_self (b : Block n) {offset stop : ℕ} {bytes : List UInt8}
    (hstop : stop = offset + bytes.length) (hn : stop ≤ n) :
    (b.write offset bytes).slice offset stop = bytes := by
  apply slice_eq_of_getD (by omega)
  intro i hi
  rw [get_write_of_mem (by omega) (by omega) (by omega), Nat.add_sub_cancel_left]

/-- The end of what was written is read back. -/
theorem slice_write_drop (b : Block n) {offset start : ℕ} {bytes : List UInt8}
    (hstart : offset ≤ start) (hn : offset + bytes.length ≤ n) :
    (b.write offset bytes).slice start (offset + bytes.length) = bytes.drop (start - offset) := by
  apply slice_eq_of_getD
  · rw [List.length_drop]
    omega
  · intro i hi
    rw [get_write_of_mem (by omega) (by omega) (by omega), List.getD_eq_getElem?_getD,
      List.getD_eq_getElem?_getD, List.getElem?_drop]
    congr 2
    omega

/-- A write does not disturb a disjoint range. -/
theorem slice_write_of_disjoint (b : Block n) {offset start stop : ℕ} {bytes : List UInt8}
    (h : stop ≤ offset ∨ offset + bytes.length ≤ start) :
    (b.write offset bytes).slice start stop = b.slice start stop := by
  apply slice_congr rfl
  intro i hi
  exact get_write_of_notMem (by omega)

/-- Writing one byte over the one it is computed from modifies that byte of a slice. -/
theorem slice_write_modify (b : Block n) {start stop k : ℕ} (f : UInt8 → UInt8)
    (hk : k < stop - start) (hn : stop ≤ n) :
    (b.write (start + k) [f (b.get (start + k))]).slice start stop =
      (b.slice start stop).modify k f := by
  apply slice_eq_of_getD (by simp)
  intro i hi
  rw [get_write, List.length_singleton, List.getD_eq_getElem?_getD, List.getD_eq_getElem?_getD,
    List.getElem?_modify, getElem?_slice b (by omega)]
  by_cases h : k = i
  · subst h
    rw [if_pos ⟨le_rfl, by omega, by omega⟩]
    simp
  · rw [if_neg (by omega)]
    simp [h]

/-- Equal bytes are equal numbers. -/
theorem le_congr {a b : Block n} {s t w : ℕ} (h : ∀ i < w, a.get (s + i) = b.get (t + i)) :
    a.le s w = b.le t w := by
  have hslice : a.slice s (s + w) = b.slice t (t + w) :=
    slice_congr (by omega) fun i hi => h i (by omega)
  rw [le, le, hslice]

theorem le_lt (b : Block n) (offset w : ℕ) : b.le offset w < 256 ^ w := by
  have h := leValue_lt (b.slice offset (offset + w))
  simpa [le] using h

/-- A number that was written is read back. -/
theorem le_write_self (b : Block n) {offset w : ℕ} {bytes : List UInt8}
    (hlen : bytes.length = w) (hn : offset + w ≤ n) :
    (b.write offset bytes).le offset w = leValue bytes := by
  rw [le, slice_write_self b (by omega) (by omega)]

/-- A number outside of what was written stays. -/
theorem le_write_of_disjoint (b : Block n) {offset start w : ℕ} {bytes : List UInt8}
    (h : start + w ≤ offset ∨ offset + bytes.length ≤ start) :
    (b.write offset bytes).le start w = b.le start w := by
  rw [le, le, slice_write_of_disjoint b (by omega)]

end Block
