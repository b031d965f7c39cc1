import Jet3.Library.Bytes
import Mathlib.Data.List.Lex

/-!
# The order of byte strings

Byte strings are ordered lexicographically, a proper prefix before its extensions. Bytes carry the
order of their values.

* `compareBytes_append` compares by the first part and then by the second, where no first part is a
  proper prefix of the other one;
* `compareBytes_complement` says that complementing every byte reverses the order of such strings;
* `compareBytes_beBytes` compares numbers by their big-endian bytes.
-/

namespace ByteOrder

/-- Bytes carry the order of their values. -/
scoped instance linearOrder : LinearOrder UInt8 where
  le_refl := UInt8.le_refl
  le_trans _ _ _ := UInt8.le_trans
  le_antisymm _ _ := UInt8.le_antisymm
  le_total := UInt8.le_total
  lt_iff_le_not_ge a b := by
    rw [UInt8.lt_iff_toNat_lt, UInt8.le_iff_toNat_le, UInt8.le_iff_toNat_le]
    omega
  toDecidableLE := inferInstance
  toDecidableEq := inferInstance
  toDecidableLT := inferInstance
  compare_eq_compareOfLessAndEq := by
    intros
    rfl

end ByteOrder

section

open scoped ByteOrder

/-- The comparison of two byte strings. -/
def compareBytes (a b : List UInt8) : Ordering :=
  if a < b then .lt else if a = b then .eq else .gt

/-- Byte strings compare equal where they are equal. -/
@[simp]
theorem compareBytes_eq_iff {a b : List UInt8} : compareBytes a b = .eq ↔ a = b := by
  unfold compareBytes
  split
  · rename_i h
    simpa using h.ne
  · split <;> simp [*]

/-- The comparison is the lexicographic order. -/
@[simp]
theorem compareBytes_lt_iff {a b : List UInt8} : compareBytes a b = .lt ↔ a < b := by
  unfold compareBytes
  split
  · simp [*]
  · split <;> simp [*]

/-- The same for the other direction. -/
@[simp]
theorem compareBytes_gt_iff {a b : List UInt8} : compareBytes a b = .gt ↔ b < a := by
  unfold compareBytes
  split
  · rename_i h
    simpa using h.le
  · rename_i h
    split
    · rename_i heq
      simp [heq]
    · rename_i hne
      simpa using lt_of_le_of_ne (not_lt.mp h) (Ne.symm hne)

/-! ## Composition -/

@[simp]
theorem compareBytes_self (a : List UInt8) : compareBytes a a = .eq :=
  compareBytes_eq_iff.mpr rfl

theorem compareBytes_swap (a b : List UInt8) : (compareBytes a b).swap = compareBytes b a := by
  rcases hab : compareBytes a b with _ | _ | _
  · exact (compareBytes_gt_iff.mpr (compareBytes_lt_iff.mp hab)).symm
  · rw [compareBytes_eq_iff.mp hab, compareBytes_self]
    rfl
  · exact (compareBytes_lt_iff.mpr (compareBytes_gt_iff.mp hab)).symm

@[simp]
theorem compareBytes_nil_cons (b : UInt8) (l : List UInt8) : compareBytes [] (b :: l) = .lt :=
  compareBytes_lt_iff.mpr (List.nil_lt_cons b l)

@[simp]
theorem compareBytes_cons_nil (b : UInt8) (l : List UInt8) : compareBytes (b :: l) [] = .gt :=
  compareBytes_gt_iff.mpr (List.nil_lt_cons b l)

theorem compareBytes_cons_cons (x y : UInt8) (a b : List UInt8) :
    compareBytes (x :: a) (y :: b) = (compare x y).then (compareBytes a b) := by
  rcases lt_trichotomy x y with hlt | rfl | hgt
  · rw [compare_lt_iff_lt.mpr hlt]
    exact compareBytes_lt_iff.mpr (List.cons_lt_cons_iff.mpr (.inl hlt))
  · rw [compare_eq_iff_eq.mpr rfl, Ordering.eq_then]
    unfold compareBytes
    simp
  · rw [compare_gt_iff_gt.mpr hgt]
    exact compareBytes_gt_iff.mpr (List.cons_lt_cons_iff.mpr (.inl hgt))

/-- Strings are compared by their first parts, and by the rest where these are equal, as long as no
first part is a proper prefix of the other. -/
theorem compareBytes_append {a b : List UInt8} (hab : a <+: b → a = b) (hba : b <+: a → a = b)
    (s t : List UInt8) :
    compareBytes (a ++ s) (b ++ t) = (compareBytes a b).then (compareBytes s t) := by
  induction a generalizing b with
  | nil =>
    obtain rfl := hab List.nil_prefix
    simp
  | cons x a ih =>
    cases b with
    | nil => exact absurd (hba List.nil_prefix) (List.cons_ne_nil _ _)
    | cons y b =>
      rw [List.cons_append, List.cons_append, compareBytes_cons_cons, compareBytes_cons_cons,
        Ordering.then_assoc]
      rcases hxy : compare x y with _ | _ | _
      · rfl
      · obtain rfl := compare_eq_iff_eq.mp hxy
        rw [ih (fun h => (List.cons.inj (hab (List.cons_prefix_cons.mpr ⟨rfl, h⟩))).2)
          fun h => (List.cons.inj (hba (List.cons_prefix_cons.mpr ⟨rfl, h⟩))).2]
      · rfl

/-- Fronts of one length are compared first. -/
theorem compareBytes_append_of_length {a b : List UInt8} (h : a.length = b.length)
    (s t : List UInt8) :
    compareBytes (a ++ s) (b ++ t) = (compareBytes a b).then (compareBytes s t) :=
  compareBytes_append (fun hab => hab.eq_of_length h)
    (fun hba => (hba.eq_of_length h.symm).symm) s t

/-- Strings are compared by the letters from a bound on, and then by what follows them, as long as
that begins below the bound. -/
theorem compareBytes_append_of_bound (bound : UInt8) {a b s t : List UInt8}
    (ha : ∀ x ∈ a, bound ≤ x) (hb : ∀ x ∈ b, bound ≤ x) (hs : ∃ x ∈ s.head?, x < bound)
    (ht : ∃ x ∈ t.head?, x < bound) :
    compareBytes (a ++ s) (b ++ t) = (compareBytes a b).then (compareBytes s t) := by
  induction a generalizing b with
  | nil =>
    cases b with
    | nil => simp
    | cons y b =>
      obtain ⟨x, hx, hlt⟩ := hs
      obtain ⟨s, rfl⟩ : ∃ rest, s = x :: rest := List.head?_eq_some_iff.mp hx
      have hxy : x < y := lt_of_lt_of_le hlt (hb y List.mem_cons_self)
      rw [List.nil_append, List.cons_append, compareBytes_cons_cons, compare_lt_iff_lt.mpr hxy,
        compareBytes_nil_cons]
      rfl
  | cons x a ih =>
    cases b with
    | nil =>
      obtain ⟨y, hy, hlt⟩ := ht
      obtain ⟨t, rfl⟩ : ∃ rest, t = y :: rest := List.head?_eq_some_iff.mp hy
      have hyx : y < x := lt_of_lt_of_le hlt (ha x List.mem_cons_self)
      rw [List.nil_append, List.cons_append, compareBytes_cons_cons, compare_gt_iff_gt.mpr hyx,
        compareBytes_cons_nil]
      rfl
    | cons y b =>
      rw [List.forall_mem_cons] at ha hb
      rw [List.cons_append, List.cons_append, compareBytes_cons_cons, compareBytes_cons_cons,
        ih ha.2 hb.2, Ordering.then_assoc]

/-- The complement of a byte. -/
theorem toNat_complement (x : UInt8) : (x ^^^ 0xff).toNat = 255 - x.toNat := by
  have hall : ∀ i < 256, (UInt8.ofNat i ^^^ 0xff).toNat = 255 - i := by decide +kernel
  have h := hall x.toNat x.toNat_lt
  rwa [UInt8.ofNat_toNat] at h

theorem UInt8.compare_eq_compare_toNat (x y : UInt8) : compare x y = compare x.toNat y.toNat := by
  rcases lt_trichotomy x y with hlt | rfl | hgt
  · rw [compare_lt_iff_lt.mpr hlt, compare_lt_iff_lt.mpr (UInt8.lt_iff_toNat_lt.mp hlt)]
  · rw [compare_eq_iff_eq.mpr rfl, compare_eq_iff_eq.mpr rfl]
  · rw [compare_gt_iff_gt.mpr hgt, compare_gt_iff_gt.mpr (UInt8.lt_iff_toNat_lt.mp hgt)]

/-- Complementing a byte reverses the order. -/
theorem compare_complement (x y : UInt8) : compare (x ^^^ 0xff) (y ^^^ 0xff) = compare y x := by
  have hx := x.toNat_lt
  have hy := y.toNat_lt
  rw [UInt8.compare_eq_compare_toNat, UInt8.compare_eq_compare_toNat, toNat_complement,
    toNat_complement]
  rcases lt_trichotomy x.toNat y.toNat with hlt | heq | hgt
  · rw [compare_gt_iff_gt.mpr hlt, compare_gt_iff_gt.mpr (by omega)]
  · rw [heq, compare_eq_iff_eq.mpr rfl, compare_eq_iff_eq.mpr rfl]
  · rw [compare_lt_iff_lt.mpr hgt, compare_lt_iff_lt.mpr (by omega)]

/-- Complementing every byte reverses the order of strings neither of which is a proper prefix. -/
theorem compareBytes_complement {a b : List UInt8} (hab : a <+: b → a = b)
    (hba : b <+: a → a = b) :
    compareBytes (a.map (· ^^^ 0xff)) (b.map (· ^^^ 0xff)) = compareBytes b a := by
  induction a generalizing b with
  | nil =>
    obtain rfl := hab List.nil_prefix
    rfl
  | cons x a ih =>
    cases b with
    | nil => exact absurd (hba List.nil_prefix) (List.cons_ne_nil _ _)
    | cons y b =>
      rw [List.map_cons, List.map_cons, compareBytes_cons_cons, compareBytes_cons_cons,
        compare_complement]
      rcases hyx : compare y x with _ | _ | _
      · rfl
      · obtain rfl := compare_eq_iff_eq.mp hyx
        rw [ih (fun h => (List.cons.inj (hab (List.cons_prefix_cons.mpr ⟨rfl, h⟩))).2)
          fun h => (List.cons.inj (hba (List.cons_prefix_cons.mpr ⟨rfl, h⟩))).2]
      · rfl

/-! ## Numbers -/

/-- The last byte of a number is its highest one. -/
theorem leBytes_succ (w n : ℕ) :
    leBytes (w + 1) n = leBytes w n ++ [UInt8.ofNat (n / 256 ^ w)] := by
  induction w generalizing n with
  | zero => simp [leBytes]
  | succ w ih =>
    rw [leBytes, ih, leBytes, List.cons_append, Nat.div_div_eq_div_mul, pow_succ']

/-- The first byte of a number is its highest one. -/
theorem beBytes_succ (w n : ℕ) : beBytes (w + 1) n = UInt8.ofNat (n / 256 ^ w) :: beBytes w n := by
  rw [beBytes, leBytes_succ, List.reverse_append]
  rfl

/-- Only the number modulo the width is written. -/
theorem leBytes_mod (w n : ℕ) : leBytes w (n % 256 ^ w) = leBytes w n := by
  have h := leBytes_leValue (leBytes w n)
  rwa [length_leBytes, leValue_leBytes] at h

theorem beBytes_mod (w n : ℕ) : beBytes w (n % 256 ^ w) = beBytes w n := by
  rw [beBytes, leBytes_mod, beBytes]

/-- Numbers of one width are compared by their big-endian bytes. -/
theorem compareBytes_beBytes {w m n : ℕ} (hm : m < 256 ^ w) (hn : n < 256 ^ w) :
    compareBytes (beBytes w m) (beBytes w n) = compare m n := by
  induction w generalizing m n with
  | zero =>
    obtain rfl : m = 0 := by simpa using hm
    obtain rfl : n = 0 := by simpa using hn
    simp
  | succ w ih =>
    have hpos : 0 < 256 ^ w := by positivity
    have hm' : m / 256 ^ w < 256 := Nat.div_lt_of_lt_mul (by rwa [pow_succ] at hm)
    have hn' : n / 256 ^ w < 256 := Nat.div_lt_of_lt_mul (by rwa [pow_succ] at hn)
    have hmod := ih (Nat.mod_lt m hpos) (Nat.mod_lt n hpos)
    rw [beBytes_mod, beBytes_mod] at hmod
    rw [beBytes_succ, beBytes_succ, compareBytes_cons_cons, hmod, UInt8.compare_eq_compare_toNat,
      UInt8.toNat_ofNat_of_lt' hm', UInt8.toNat_ofNat_of_lt' hn']
    have hm_eq := Nat.div_add_mod m (256 ^ w)
    have hn_eq := Nat.div_add_mod n (256 ^ w)
    rcases lt_trichotomy (m / 256 ^ w) (n / 256 ^ w) with hlt | heq | hgt
    · rw [compare_lt_iff_lt.mpr hlt, Ordering.lt_then, compare_lt_iff_lt.mpr]
      exact lt_of_not_ge fun hle => (Nat.div_le_div_right hle).not_gt hlt
    · rw [compare_eq_iff_eq.mpr heq, Ordering.eq_then]
      rw [heq] at hm_eq
      rcases lt_trichotomy (m % 256 ^ w) (n % 256 ^ w) with hlt | hsame | hgt
      · rw [compare_lt_iff_lt.mpr hlt, compare_lt_iff_lt.mpr (by omega)]
      · rw [compare_eq_iff_eq.mpr hsame, compare_eq_iff_eq.mpr (by omega)]
      · rw [compare_gt_iff_gt.mpr hgt, compare_gt_iff_gt.mpr (by omega)]
    · rw [compare_gt_iff_gt.mpr hgt, Ordering.gt_then, compare_gt_iff_gt.mpr]
      exact lt_of_not_ge fun hle => (Nat.div_le_div_right hle).not_gt hgt

end
