import Mathlib.Data.List.Range
import Mathlib.Data.Nat.Bitwise
import Mathlib.Tactic.IntervalCases

/-!
# Bitmaps

Sets of small numbers stored low-order bit first in a list of bytes: member `n` is bit `n % 8` of
byte `n / 8`.

* `test` reads one bit, and is `false` beyond the last byte;
* `put` changes one bit, and `test_put` says it changes no other;
* `members` lists the set bits, in ascending order.
-/

namespace Bitmap

/-- The byte with only bit `bit` set. -/
def mask (bit : ℕ) : UInt8 :=
  1 <<< UInt8.ofNat bit

/-- Whether `byte` has bit `bit`. -/
def byteTest (byte : UInt8) (bit : ℕ) : Bool :=
  byte &&& mask bit ≠ 0

/-- Gives bit `bit` of `byte` the value `desired`. -/
def bytePut (byte : UInt8) (bit : ℕ) (desired : Bool) : UInt8 :=
  if desired then byte ||| mask bit else byte &&& ~~~mask bit

/-- Whether `n` is a member. -/
def test (bytes : List UInt8) (n : ℕ) : Bool :=
  byteTest (bytes.getD (n / 8) 0) (n % 8)

/-- Makes `n` a member or removes it; a number beyond the last byte is dropped. -/
def put (bytes : List UInt8) (n : ℕ) (desired : Bool) : List UInt8 :=
  bytes.modify (n / 8) fun byte => bytePut byte (n % 8) desired

/-! ## One byte -/

theorem mask_toNat {bit : ℕ} (h : bit < 8) : (mask bit).toNat = 2 ^ bit := by
  interval_cases bit <;> rfl

/-- The test of a bit of a byte is that of its number. -/
theorem byteTest_eq_testBit {byte : UInt8} {bit : ℕ} (h : bit < 8) :
    byteTest byte bit = byte.toNat.testBit bit := by
  have hzero : byte &&& mask bit ≠ 0 ↔ byte.toNat.testBit bit = true := by
    rw [ne_eq, ← UInt8.toNat_inj, UInt8.toNat_and, mask_toNat h, UInt8.toNat_zero, Nat.and_two_pow]
    cases byte.toNat.testBit bit <;> simp
  rw [byteTest, Bool.eq_iff_iff, decide_eq_true_iff]
  exact hzero

/-- Changing one bit of a byte leaves the others. -/
theorem byteTest_bytePut {byte : UInt8} {bit other : ℕ} {desired : Bool} (hbit : bit < 8)
    (hother : other < 8) :
    byteTest (bytePut byte bit desired) other =
      if other = bit then desired else byteTest byte other := by
  rw [byteTest_eq_testBit hother, byteTest_eq_testBit hother]
  cases desired with
  | true =>
    rw [bytePut, if_pos rfl, UInt8.toNat_or, mask_toNat hbit, Nat.testBit_or, Nat.testBit_two_pow]
    by_cases h : other = bit
    · simp [h]
    · simp [h, Ne.symm h]
  | false =>
    -- the complement of a mask has every bit below the eighth except its own
    have hnot : (~~~mask bit).toNat = 2 ^ 8 - (2 ^ bit + 1) := by
      interval_cases bit <;> rfl
    have hpow : 2 ^ bit < 2 ^ 8 := Nat.pow_lt_pow_right (by omega) hbit
    rw [bytePut, if_neg (by simp), UInt8.toNat_and, hnot, Nat.testBit_and,
      Nat.testBit_two_pow_sub_succ hpow, Nat.testBit_two_pow]
    by_cases h : other = bit
    · simp [h]
    · simp [h, Ne.symm h, hother]

/-! ## Whole bitmaps -/

@[simp]
theorem length_put (bytes : List UInt8) (n : ℕ) (desired : Bool) :
    (put bytes n desired).length = bytes.length := by
  simp [put]

/-- A number beyond the last byte is no member. -/
theorem test_of_length_le {bytes : List UInt8} {n : ℕ} (h : bytes.length ≤ n / 8) :
    test bytes n = false := by
  rw [test, List.getD_eq_default _ _ h, byteTest_eq_testBit (Nat.mod_lt n (by omega))]
  exact Nat.zero_testBit _

/-- Changing one member leaves the others. -/
theorem test_put {bytes : List UInt8} {n m : ℕ} {desired : Bool} (h : n / 8 < bytes.length) :
    test (put bytes n desired) m = if m = n then desired else test bytes m := by
  have hn : n % 8 < 8 := Nat.mod_lt n (by omega)
  have hm : m % 8 < 8 := Nat.mod_lt m (by omega)
  simp only [test, put, List.getD_eq_getElem?_getD, List.getElem?_modify]
  by_cases hbyte : n / 8 = m / 8
  · have hlt : m / 8 < bytes.length := hbyte ▸ h
    simp only [if_pos hbyte, List.getElem?_eq_getElem hlt, Option.map_eq_map, Option.map_some,
      Option.getD_some, byteTest_bytePut hn hm]
    have hiff : m % 8 = n % 8 ↔ m = n := by omega
    simp only [hiff]
  · have hne : m ≠ n := by
      rintro rfl
      exact hbyte rfl
    simp only [if_neg hbyte, if_neg hne, Option.map_eq_map, Option.map_id']

/-- The members of `bytes`, from the first on. -/
def members (bytes : List UInt8) : List ℕ :=
  (List.range (8 * bytes.length)).filter (test bytes)

/-- The members of a bitmap are its set bits. -/
theorem mem_members {bytes : List UInt8} {n : ℕ} : n ∈ members bytes ↔ test bytes n = true := by
  rw [members, List.mem_filter, List.mem_range, and_iff_right_iff_imp]
  intro h
  by_contra hn
  rw [test_of_length_le (by omega)] at h
  exact absurd h (by simp)

/-- A bitmap of zeros has no members. -/
@[simp]
theorem test_replicate_zero (k n : ℕ) : test (List.replicate k 0) n = false := by
  have hzero : (List.replicate k (0 : UInt8)).getD (n / 8) 0 = 0 := by
    rw [List.getD_eq_getElem?_getD, List.getElem?_replicate]
    split <;> rfl
  rw [test, hzero, byteTest_eq_testBit (Nat.mod_lt n (by omega))]
  exact Nat.zero_testBit _

/-- The members of `bytes` from `n` on. -/
def membersFrom (bytes : List UInt8) (n : ℕ) : List ℕ :=
  (List.range' n (8 * bytes.length - n)).filter (test bytes)

@[simp]
theorem membersFrom_zero (bytes : List UInt8) : membersFrom bytes 0 = members bytes := by
  rw [membersFrom, members, Nat.sub_zero, List.range_eq_range']

/-- Behind the last bit there are no members. -/
theorem membersFrom_of_length_le {bytes : List UInt8} {n : ℕ} (h : 8 * bytes.length ≤ n) :
    membersFrom bytes n = [] := by
  rw [membersFrom, Nat.sub_eq_zero_of_le h]
  rfl

theorem lt_of_mem_membersFrom {bytes : List UInt8} {n bit : ℕ} (h : bit ∈ membersFrom bytes n) :
    bit < 8 * bytes.length := by
  have hrange := List.mem_range'_1.mp (List.mem_of_mem_filter h)
  omega

/-- The members from `n` on are `n`, where it is one, and those after it. -/
theorem membersFrom_eq {bytes : List UInt8} {n : ℕ} (h : n < 8 * bytes.length) :
    membersFrom bytes n =
      if test bytes n then n :: membersFrom bytes (n + 1) else membersFrom bytes (n + 1) := by
  have hlength : 8 * bytes.length - n = 8 * bytes.length - (n + 1) + 1 := by omega
  rw [membersFrom, hlength, List.range'_succ, List.filter_cons]
  rfl

/-- Two ascending lists of the same numbers are one. -/
theorem eq_of_ascending {l l' : List ℕ} (h : l.Pairwise (· < ·)) (h' : l'.Pairwise (· < ·))
    (hmem : ∀ n, n ∈ l ↔ n ∈ l') : l = l' := by
  refine List.Perm.eq_of_pairwise (fun a b _ _ hab hba => absurd hab (lt_asymm hba)) h h' ?_
  exact (List.perm_ext_iff_of_nodup (h.imp fun h => h.ne) (h'.imp fun h => h.ne)).mpr hmem

/-- Members are listed from the lowest to the highest. -/
theorem pairwise_members (bytes : List UInt8) : (members bytes).Pairwise (· < ·) :=
  List.pairwise_lt_range.filter _

/-- Members are below the count of bits. -/
theorem lt_of_mem_members {bytes : List UInt8} {n : ℕ} (h : n ∈ members bytes) :
    n < 8 * bytes.length :=
  List.mem_range.mp (List.mem_of_mem_filter h)

/-- The members of a bitmap are those of its first byte, and those of the rest eight further on. -/
theorem members_cons (byte : UInt8) (bytes : List UInt8) :
    members (byte :: bytes) =
      (List.range 8).filter (byteTest byte) ++ (members bytes).map (8 + ·) := by
  have hrange : List.range (8 * (byte :: bytes).length) =
      List.range 8 ++ (List.range (8 * bytes.length)).map (8 + ·) := by
    rw [List.length_cons, Nat.mul_succ, Nat.add_comm, List.range_add]
  have hfirst : (List.range 8).filter (test (byte :: bytes)) =
    (List.range 8).filter (byteTest byte) := by
    refine List.filter_congr fun bit hbit => ?_
    have hlt := List.mem_range.mp hbit
    rw [test, Nat.div_eq_of_lt hlt, Nat.mod_eq_of_lt hlt]
    rfl
  have hrest : (List.range (8 * bytes.length)).filter (test (byte :: bytes) ∘ (8 + ·)) =
      members bytes := by
    refine List.filter_congr fun n _ => ?_
    have hdiv : (8 + n) / 8 = n / 8 + 1 := by omega
    have hmod : (8 + n) % 8 = n % 8 := by omega
    rw [Function.comp_apply, test, test, hdiv, hmod, List.getD_cons_succ]
  rw [members, hrange, List.filter_append, List.filter_map, hfirst, hrest]

@[simp]
theorem length_foldl_put (bytes : List UInt8) (ns : List ℕ) (desired : Bool) :
    (ns.foldl (fun bytes n => put bytes n desired) bytes).length = bytes.length := by
  induction ns generalizing bytes with
  | nil => rfl
  | cons n ns ih => rw [List.foldl_cons, ih, length_put]

/-- Setting every number of `ns` adds exactly those. -/
theorem test_foldl_put {bytes : List UInt8} {ns : List ℕ} {m : ℕ} {desired : Bool}
    (h : ∀ n ∈ ns, n / 8 < bytes.length) :
    test (ns.foldl (fun bytes n => put bytes n desired) bytes) m =
      if m ∈ ns then desired else test bytes m := by
  induction ns generalizing bytes with
  | nil => simp
  | cons n ns ih =>
    have hlen : ∀ k ∈ ns, k / 8 < (put bytes n desired).length := by
      intro k hk
      rw [length_put]
      exact h k (List.mem_cons_of_mem n hk)
    rw [List.foldl_cons, ih hlen, test_put (h n List.mem_cons_self)]
    by_cases hmem : m ∈ ns
    · simp [hmem]
    · simp [hmem]

end Bitmap
