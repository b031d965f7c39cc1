import Mathlib.Data.List.Basic
import Mathlib.Data.List.Forall2

/-!
# Lookups by key

`lookup_eq_some_iff` says what a lookup in an association list finds where no key is repeated.
`find?_eq_some_of_mem` is the same for a list whose items carry their key, and `find?_modify` says
what is found after the first item with a key was changed.
-/

namespace Lookup

variable {α β : Type*} [BEq α] [LawfulBEq α] {pairs : List (α × β)}

/-- What is found is a pair of the list. -/
theorem mem_of_lookup {key : α} {value : β} (h : pairs.lookup key = some value) :
    (key, value) ∈ pairs := by
  induction pairs with
  | nil => simp at h
  | cons first pairs ih =>
    rcases first with ⟨other, otherValue⟩
    rw [List.lookup_cons] at h
    by_cases heq : key = other
    · subst heq
      simp only [beq_self_eq_true, Option.some.injEq] at h
      rw [h]
      exact List.mem_cons_self
    · rw [beq_eq_false_iff_ne.mpr heq] at h
      exact List.mem_cons_of_mem _ (ih h)

/-- Where keys are listed once, every pair is found. -/
theorem lookup_eq_some_of_mem (hpairs : (pairs.map Prod.fst).Nodup) {pair : α × β}
    (h : pair ∈ pairs) : pairs.lookup pair.1 = some pair.2 := by
  induction pairs with
  | nil => simp at h
  | cons first pairs ih =>
    rcases first with ⟨key, value⟩
    rw [List.map_cons, List.nodup_cons] at hpairs
    rcases List.mem_cons.mp h with rfl | h
    · simp
    · have hne : (pair.1 == key) = false :=
        beq_eq_false_iff_ne.mpr fun heq => hpairs.1 (List.mem_map.mpr ⟨pair, h, heq⟩)
      rw [List.lookup_cons, hne]
      exact ih hpairs.2 h

/-- Where keys are listed once, the pairs are what is found. -/
theorem lookup_eq_some_iff (hpairs : (pairs.map Prod.fst).Nodup) {key : α} {value : β} :
    pairs.lookup key = some value ↔ (key, value) ∈ pairs :=
  ⟨mem_of_lookup, lookup_eq_some_of_mem hpairs⟩

/-- A lookup finds the first pair with its key. -/
theorem lookup_eq_map_find? [DecidableEq α] (pairs : List (α × β)) (key : α) :
    pairs.lookup key = (pairs.find? fun pair => pair.1 = key).map Prod.snd := by
  induction pairs with
  | nil => rfl
  | cons first pairs ih =>
    rcases first with ⟨other, value⟩
    rw [List.lookup_cons, List.find?_cons]
    by_cases heq : key = other
    · simp [heq]
    · have hne : (key == other) = false := beq_eq_false_iff_ne.mpr heq
      rw [hne, decide_eq_false (Ne.symm heq)]
      exact ih

/-- The first item with a property, by its position. -/
theorem find?_of_findIdx? {ι : Type*} {p : ι → Bool} {items : List ι} {position : ℕ}
    (h : items.findIdx? p = some position) : items.find? p = items[position]? := by
  induction items generalizing position with
  | nil => simp at h
  | cons first rest ih =>
    rw [List.findIdx?_cons] at h
    rw [List.find?_cons]
    split at h
    next hfirst =>
      cases h
      rw [hfirst]
      rfl
    next hfirst =>
      obtain ⟨position', hrest, rfl⟩ := Option.map_eq_some_iff.mp h
      rw [Bool.eq_false_iff.mpr hfirst, List.getElem?_cons_succ, ← ih hrest]

section Keyed

variable {ι κ : Type*} [DecidableEq κ] {key : ι → κ} {items : List ι}

/-- Where no key is repeated, an item is found by its key. -/
theorem find?_eq_some_of_mem (hdistinct : (items.map key).Nodup) {item : ι} (h : item ∈ items) :
    (items.find? fun other => key other = key item) = some item := by
  induction items with
  | nil => simp at h
  | cons first rest ih =>
    rw [List.map_cons, List.nodup_cons] at hdistinct
    rcases List.mem_cons.mp h with rfl | hrest
    · simp
    · have hne : key first ≠ key item :=
        fun heq => hdistinct.1 (List.mem_map.mpr ⟨item, hrest, heq.symm⟩)
      rw [List.find?_cons, decide_eq_false hne]
      exact ih hdistinct.2 hrest

/-- After the first item with key `k` was changed, it is found changed and every other as before. -/
theorem find?_modify {f : ι → ι} (hkey : ∀ item, key (f item) = key item) (k k' : κ) :
    ((items.modify (items.findIdx fun item => key item = k) f).find? fun item => key item = k') =
      if k' = k then (items.find? fun item => key item = k).map f
      else items.find? fun item => key item = k' := by
  induction items with
  | nil => simp
  | cons first rest ih =>
    rw [List.findIdx_cons, List.find?_cons, List.find?_cons]
    by_cases hfirst : key first = k
    · rw [decide_eq_true hfirst, cond_true, List.modify_zero_cons, List.find?_cons, hkey, hfirst]
      by_cases hk : k' = k
      · simp [hk]
      · simp [hk, Ne.symm hk]
    · rw [decide_eq_false hfirst, cond_false, List.modify_succ_cons, List.find?_cons, ih]
      by_cases hk : k' = k
      · subst hk
        simp [hfirst]
      · simp only [if_neg hk]

/-- After the first item with key `k` was replaced, the new item is found and every other as
before. -/
theorem find?_set (key : ι → κ) {k : κ} {position : ℕ} {new : ι} (hnew : key new = k)
    (h : items.findIdx? (fun item => key item = k) = some position) (k' : κ) :
    (items.set position new).find? (fun item => key item = k') =
      if k' = k then some new else items.find? fun item => key item = k' := by
  induction items generalizing position with
  | nil => simp at h
  | cons first rest ih =>
    rw [List.findIdx?_cons] at h
    by_cases hfirst : key first = k
    · rw [decide_eq_true hfirst, if_pos rfl, Option.some.injEq] at h
      subst h
      rw [List.set_cons_zero, List.find?_cons, List.find?_cons, hnew, hfirst]
      by_cases hk : k' = k
      · simp [hk]
      · simp [hk, Ne.symm hk]
    · rw [decide_eq_false hfirst, if_neg Bool.false_ne_true, Option.map_eq_some_iff] at h
      obtain ⟨position', hrest, rfl⟩ := h
      rw [List.set_cons_succ, List.find?_cons, List.find?_cons, ih hrest]
      by_cases hk : k' = k
      · subst hk
        simp [hfirst]
      · simp only [if_neg hk]

/-- After an item with a new key was added, it is found and every other as before. -/
theorem find?_append_new (key : ι → κ) {new : ι}
    (h : items.findIdx? (fun item => key item = key new) = none)
    (k' : κ) :
    (items ++ [new]).find? (fun item => key item = k') =
      if k' = key new then some new else items.find? fun item => key item = k' := by
  rw [List.findIdx?_eq_none_iff] at h
  rw [List.find?_append]
  by_cases hk : k' = key new
  · have hnone : items.find? (fun item => key item = k') = none := by
      rw [List.find?_eq_none, hk]
      exact fun item hitem => by simpa using h item hitem
    rw [if_pos hk, hnone, Option.none_or, hk]
    simp
  · have hne : key new ≠ k' := Ne.symm hk
    rw [if_neg hk]
    simp [hne]

end Keyed

/-- An item of a numbered list has the number of items before it. -/
theorem zipIdx_split {α : Type*} {l : List α} {done rest : List (α × ℕ)} {entry : α × ℕ}
    (h : l.zipIdx = done ++ entry :: rest) :
    entry.2 = done.length ∧ l[entry.2]? = some entry.1 ∧
      l.take entry.2 = done.map Prod.fst := by
  have hget : l.zipIdx[done.length]? = some entry := by rw [h]; simp
  rw [List.getElem?_zipIdx, Option.map_eq_some_iff] at hget
  obtain ⟨a, ha, rfl⟩ := hget
  have hl : l = done.map Prod.fst ++ a :: rest.map Prod.fst := by
    have := congrArg (List.map Prod.fst) h
    rwa [List.zipIdx_map_fst, List.map_append, List.map_cons] at this
  refine ⟨Nat.zero_add _, by simpa using ha, ?_⟩
  rw [Nat.zero_add, hl, List.take_left' (List.length_map _)]

/-- An item of a range has the number of items before it. -/
theorem range_split {done rest : List ℕ} {n k : ℕ} (h : List.range n = done ++ k :: rest) :
    k = done.length ∧ k < n := by
  have hlen := congrArg List.length h
  have hget := congrArg (fun l => l[done.length]?) h
  rw [List.length_range, List.length_append, List.length_cons] at hlen
  simp only [List.getElem?_append_right (Nat.le_refl _), Nat.sub_self, List.getElem?_cons_zero]
    at hget
  rw [List.getElem?_range (by omega), Option.some.injEq] at hget
  omega

/-- Lists of related items agree on what related items agree on. -/
theorem map_eq_of_forall₂ {α β γ : Type*} {r : α → β → Prop} {f : α → γ} {g : β → γ}
    (hr : ∀ a b, r a b → f a = g b) {l : List α} {l' : List β} (h : List.Forall₂ r l l') :
    l.map f = l'.map g := by
  induction h with
  | nil => rfl
  | cons hab _ ih => rw [List.map_cons, List.map_cons, hr _ _ hab, ih]

/-- The item at an index of the one list is related to the item at this index of the other. -/
theorem getElem?_of_forall₂ {α β : Type*} {r : α → β → Prop} {l : List α} {l' : List β}
    (h : List.Forall₂ r l l') {n : ℕ} {a : α} (ha : l[n]? = some a) :
    ∃ b, l'[n]? = some b ∧ r a b := by
  obtain ⟨hlen, hget⟩ := List.forall₂_iff_get.mp h
  obtain ⟨hn, rfl⟩ := List.getElem?_eq_some_iff.mp ha
  have hn' : n < l'.length := hlen ▸ hn
  exact ⟨l'[n], List.getElem?_eq_getElem hn', hget n hn hn'⟩

/-- Every item on the right has one on the left. -/
theorem exists_mem_of_forall₂ {α β : Type*} {r : α → β → Prop} {l : List α} {l' : List β}
    (h : List.Forall₂ r l l') {b : β} (hb : b ∈ l') : ∃ a ∈ l, r a b := by
  obtain ⟨n, hn⟩ := List.mem_iff_getElem?.mp hb
  obtain ⟨a, ha, hr⟩ := getElem?_of_forall₂ h.flip hn
  exact ⟨a, List.mem_iff_getElem?.mpr ⟨n, ha⟩, hr⟩

end Lookup
