import Mathlib.Data.List.Basic
import Mathlib.Data.List.TakeWhile
import Mathlib.Data.Nat.Basic

/-!
# Binary search in a list

The standard library's binary search: the number of iterations depends on the length only, and the
last candidate is compared once more at the end. The searches are total; what they return on a list
that is not ordered by the comparison is whatever the loop arrives at.

* `lastCandidate_spec` is the loop invariant at its end: everything after the candidate compares
  greater, and the candidate does not unless it is the first item.
* `isOk_binarySearchBy_iff` says when a search finds an item, and `partitionPoint_append` where a
  list that is split by a predicate is split.
-/

namespace Search

variable {α : Type*}

/-- How the item at `i` compares; greater beyond the end. -/
def compareAt (cmp : α → Ordering) (l : List α) (i : ℕ) : Ordering :=
  match l[i]? with
  | some a => cmp a
  | none => .gt

/-- The loop of the search over the `size` items from `base` on. -/
def lastCandidate (cmp : α → Ordering) (l : List α) : ℕ → ℕ → ℕ → ℕ
  | 0, base, _ => base
  | fuel + 1, base, size =>
    if size ≤ 1 then base
    else
      let half := size / 2
      let mid := base + half
      lastCandidate cmp l fuel (if compareAt cmp l mid = .gt then base else mid) (size - half)

/-- `binary_search_by`: the index of an item that compares equal, or where one would stand. -/
def binarySearchBy (cmp : α → Ordering) (l : List α) : Except ℕ ℕ :=
  if l.length = 0 then .error 0
  else
    let base := lastCandidate cmp l l.length 0 l.length
    match compareAt cmp l base with
    | .eq => .ok base
    | .lt => .error (base + 1)
    | .gt => .error base

/-- `partition_point`: where the items of a list stop satisfying `pred`. -/
def partitionPoint (pred : α → Bool) (l : List α) : ℕ :=
  match binarySearchBy (fun a => if pred a then .lt else .gt) l with
  | .ok i => i
  | .error i => i

/-- Once an item compares greater, every later one does. -/
def Downward (cmp : α → Ordering) (l : List α) : Prop :=
  ∀ i j, i ≤ j → compareAt cmp l i = .gt → compareAt cmp l j = .gt

/-- At the end of the loop everything after the candidate compares greater, and the candidate does
not unless it is the first item. -/
theorem lastCandidate_spec {cmp : α → Ordering} {l : List α} (hdown : Downward cmp l)
    (fuel base size : ℕ) (hfuel : size ≤ fuel) (hpos : 0 < size)
    (hafter : ∀ j, base + size ≤ j → compareAt cmp l j = .gt)
    (hbase : base = 0 ∨ compareAt cmp l base ≠ .gt) :
    lastCandidate cmp l fuel base size < base + size ∧
      (∀ j, lastCandidate cmp l fuel base size < j → compareAt cmp l j = .gt) ∧
      (lastCandidate cmp l fuel base size = 0 ∨
        compareAt cmp l (lastCandidate cmp l fuel base size) ≠ .gt) := by
  induction fuel generalizing base size with
  | zero => omega
  | succ fuel ih =>
    unfold lastCandidate
    split
    · refine ⟨by omega, fun j hj => hafter j (by omega), hbase⟩
    · by_cases hgt : compareAt cmp l (base + size / 2) = .gt
      · simp only [hgt, if_true]
        obtain ⟨hlt, hrest⟩ := ih base (size - size / 2) (by omega) (by omega)
          (fun j hj => hdown _ j (by omega) hgt) hbase
        exact ⟨by omega, hrest⟩
      · simp only [hgt, if_false]
        obtain ⟨hlt, hrest⟩ := ih (base + size / 2) (size - size / 2) (by omega) (by omega)
          (fun j hj => hafter j (by omega)) (.inr hgt)
        exact ⟨by omega, hrest⟩

/-- Positions behind the list are above the target. -/
theorem compareAt_of_length_le {cmp : α → Ordering} {l : List α} {i : ℕ} (h : l.length ≤ i) :
    compareAt cmp l i = .gt := by
  simp [compareAt, List.getElem?_eq_none h]

theorem compareAt_getElem {cmp : α → Ordering} {l : List α} {i : ℕ} (h : i < l.length) :
    compareAt cmp l i = cmp l[i] := by
  simp [compareAt, List.getElem?_eq_getElem h]

/-- The candidate a search over the whole list ends at. -/
theorem lastCandidate_full {cmp : α → Ordering} {l : List α} (hdown : Downward cmp l)
    (hpos : 0 < l.length) :
    lastCandidate cmp l l.length 0 l.length < l.length ∧
      (∀ j, lastCandidate cmp l l.length 0 l.length < j → compareAt cmp l j = .gt) ∧
      (lastCandidate cmp l l.length 0 l.length = 0 ∨
        compareAt cmp l (lastCandidate cmp l l.length 0 l.length) ≠ .gt) := by
  have h := lastCandidate_spec hdown l.length 0 l.length le_rfl hpos
    (fun j hj => compareAt_of_length_le (by omega)) (.inl rfl)
  simpa using h

/-- A search that succeeds returns the index of an item that compares equal. -/
theorem binarySearchBy_ok {cmp : α → Ordering} {l : List α} {i : ℕ}
    (h : binarySearchBy cmp l = .ok i) : ∃ a, l[i]? = some a ∧ cmp a = .eq := by
  unfold binarySearchBy at h
  split at h
  · cases h
  · dsimp only at h
    split at h
    · rename_i heq
      cases h
      unfold compareAt at heq
      split at heq
      · rename_i a ha
        exact ⟨a, ha, heq⟩
      · cases heq
    · cases h
    · cases h

/-- In an ordered list a search finds an item exactly when one compares equal. -/
theorem isOk_binarySearchBy_iff {cmp : α → Ordering} {l : List α}
    (hordered : l.Pairwise fun a b => (cmp a = .gt → cmp b = .gt) ∧ (cmp b = .lt → cmp a = .lt)) :
    (∃ i, binarySearchBy cmp l = .ok i) ↔ ∃ a ∈ l, cmp a = .eq := by
  constructor
  · rintro ⟨i, h⟩
    obtain ⟨a, ha, heq⟩ := binarySearchBy_ok h
    exact ⟨a, List.mem_of_getElem? ha, heq⟩
  · rintro ⟨a, ha, heq⟩
    obtain ⟨k, hk, rfl⟩ := List.getElem_of_mem ha
    have hpair := List.pairwise_iff_getElem.mp hordered
    have hdown : Downward cmp l := by
      intro i j hij hgt
      rcases Nat.lt_or_ge j l.length with hj | hj
      · rcases Nat.lt_or_eq_of_le hij with hlt | rfl
        · rw [compareAt_getElem (by omega)] at hgt
          rw [compareAt_getElem hj]
          exact (hpair i j (by omega) hj hlt).1 hgt
        · exact hgt
      · exact compareAt_of_length_le hj
    obtain ⟨hlt, hafter, -⟩ := lastCandidate_full hdown (by omega)
    -- the equal item is not after the candidate, and a smaller candidate would precede it
    have hle : k ≤ lastCandidate cmp l l.length 0 l.length := by
      by_contra hgt
      have hcmp := hafter k (by omega)
      rw [compareAt_getElem hk, heq] at hcmp
      cases hcmp
    refine ⟨lastCandidate cmp l l.length 0 l.length, ?_⟩
    have hcandidate : compareAt cmp l (lastCandidate cmp l l.length 0 l.length) = .eq := by
      rw [compareAt_getElem hlt]
      rcases Nat.lt_or_eq_of_le hle with hklt | hkeq
      · have horder := hpair k _ hk hlt hklt
        rcases hc : cmp l[lastCandidate cmp l l.length 0 l.length] with _ | _ | _
        · rw [horder.2 hc] at heq
          cases heq
        · rfl
        · exfalso
          obtain ⟨-, -, hfirst⟩ := lastCandidate_full hdown (by omega)
          rcases hfirst with h0 | hne
          · omega
          · rw [compareAt_getElem hlt] at hne
            exact hne hc
      · simpa only [← hkeq] using heq
    simp only [binarySearchBy, if_neg (by omega : ¬l.length = 0), hcandidate]

/-- A search for a point between the items of a list ends there. -/
theorem binarySearchBy_append {cmp : α → Ordering} {front back : List α}
    (hfront : ∀ a ∈ front, cmp a = .lt) (hback : ∀ a ∈ back, cmp a = .gt) :
    binarySearchBy cmp (front ++ back) = .error front.length := by
  have hlow : ∀ i < front.length, compareAt cmp (front ++ back) i = .lt := by
    intro i hi
    rw [compareAt_getElem (by simp; omega), List.getElem_append_left hi]
    exact hfront _ (List.getElem_mem hi)
  have hhigh : ∀ i, front.length ≤ i → compareAt cmp (front ++ back) i = .gt := by
    intro i hi
    rcases Nat.lt_or_ge i (front ++ back).length with hlt | hge
    · rw [compareAt_getElem hlt, List.getElem_append_right hi]
      exact hback _ (List.getElem_mem _)
    · exact compareAt_of_length_le hge
  have hdown : Downward cmp (front ++ back) := by
    intro i j hij hgt
    refine hhigh j (by_contra fun hj => ?_)
    rw [hlow i (by omega)] at hgt
    cases hgt
  unfold binarySearchBy
  by_cases hempty : (front ++ back).length = 0
  · have hzero : front.length = 0 := by
      rw [List.length_append] at hempty
      omega
    rw [if_pos hempty, hzero]
  · rw [if_neg hempty]
    obtain ⟨hlt, hafter, hfirst⟩ := lastCandidate_full hdown (by omega)
    dsimp only
    generalize lastCandidate cmp (front ++ back) (front ++ back).length 0 (front ++ back).length =
      base at hlt hafter hfirst
    rcases Nat.lt_or_ge base front.length with hin | hout
    · -- the next item compares greater, so the candidate is the last of the front
      have hlast : front.length ≤ base + 1 := by
        by_contra hnot
        have hnext := hafter (base + 1) (by omega)
        rw [hlow _ (by omega)] at hnext
        cases hnext
      rw [hlow _ hin]
      exact congrArg Except.error (by omega)
    · rw [hhigh _ hout]
      rcases hfirst with h0 | hne
      · exact congrArg Except.error (by omega)
      · exact absurd (hhigh _ hout) hne

/-- A list is split where its items stop satisfying the predicate. -/
theorem partitionPoint_append {pred : α → Bool} {front back : List α}
    (hfront : ∀ a ∈ front, pred a = true) (hback : ∀ a ∈ back, pred a = false) :
    partitionPoint pred (front ++ back) = front.length := by
  unfold partitionPoint
  rw [binarySearchBy_append (fun a ha => by simp [hfront a ha]) fun a ha => by simp [hback a ha]]

/-- A list whose items stop satisfying the predicate once and for all is split there. -/
theorem exists_split (pred : α → Bool) {l : List α}
    (h : l.Pairwise fun a b => pred b = true → pred a = true) :
    ∃ front back, l = front ++ back ∧ (∀ a ∈ front, pred a = true) ∧
      (∀ a ∈ back, pred a = false) ∧ partitionPoint pred l = front.length := by
  have hsplit : l = l.takeWhile pred ++ l.dropWhile pred := List.takeWhile_append_dropWhile.symm
  have hfront : ∀ a ∈ l.takeWhile pred, pred a = true :=
    fun a ha => by simpa using List.mem_takeWhile_imp ha
  have hback : ∀ a ∈ l.dropWhile pred, pred a = false := by
    rcases hdrop : l.dropWhile pred with _ | ⟨first, rest⟩
    · simp
    · have hhead : pred first = false := by
        have hnot := List.head?_dropWhile_not pred l
        rw [hdrop] at hnot
        simpa using hnot
      have hsuffix := h.sublist (List.dropWhile_sublist pred)
      rw [hdrop, List.pairwise_cons] at hsuffix
      rw [List.forall_mem_cons]
      refine ⟨hhead, fun a ha => ?_⟩
      by_contra hne
      rw [hsuffix.1 a ha (by simpa using hne)] at hhead
      cases hhead
  refine ⟨_, _, hsplit, hfront, hback, ?_⟩
  conv_lhs => rw [hsplit]
  exact partitionPoint_append hfront hback

/-- Inserting at the length of the front. -/
theorem insertIdx_append_length (front back : List α) (a : α) :
    (front ++ back).insertIdx front.length a = front ++ a :: back := by
  induction front with
  | nil => rfl
  | cons b front ih => rw [List.cons_append, List.length_cons, List.insertIdx_succ_cons, ih,
      List.cons_append]

end Search
