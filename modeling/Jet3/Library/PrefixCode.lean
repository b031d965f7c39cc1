import Mathlib.Data.List.Lex
import Mathlib.Data.Set.Basic

/-!
# Prefix codes

A set of words is prefix free when no word is a proper prefix of another. The words of a prefix
code can be put in front of anything and still be told apart, which is what orders strings by their
first part.

* `PrefixFree.append` takes a code word off the front, and `PrefixFree.flatten` a sequence of them;
* `append_prefix_append_of_length` and `append_prefix_append` split words at a fixed length and at
  the first letter of another kind;
* `append_lt_append` compares by the first part, when the smaller one is no prefix.
-/

namespace PrefixCode

variable {α : Type*}

/-- No word is a proper prefix of another one. -/
def PrefixFree (code : Set (List α)) : Prop :=
  ∀ a ∈ code, ∀ b ∈ code, a <+: b → a = b

/-- Code words in front of two strings are equal when one string is a prefix of the other. -/
theorem PrefixFree.append {code : Set (List α)} (h : PrefixFree code) {a b s t : List α}
    (ha : a ∈ code) (hb : b ∈ code) (hpre : a ++ s <+: b ++ t) : a = b ∧ s <+: t := by
  have hfront : a <+: b ++ t := (List.prefix_append a s).trans hpre
  have heq : a = b := by
    rcases List.prefix_or_prefix_of_prefix hfront (List.prefix_append b t) with hab | hba
    · exact h a ha b hb hab
    · exact (h b hb a ha hba).symm
  subst heq
  exact ⟨rfl, (List.prefix_append_right_inj a).mp hpre⟩

/-- Sequences of code words, each position with a code of its own, form a prefix code. -/
theorem PrefixFree.flatten {codes : List (Set (List α))} (h : ∀ code ∈ codes, PrefixFree code)
    {as bs : List (List α)} (ha : List.Forall₂ (· ∈ ·) as codes)
    (hb : List.Forall₂ (· ∈ ·) bs codes) (hpre : as.flatten <+: bs.flatten) : as = bs := by
  induction ha generalizing bs with
  | nil =>
    cases hb
    rfl
  | cons hfirst _ ih =>
    cases hb with
    | cons hfirst' hrest' =>
      rw [List.forall_mem_cons] at h
      rw [List.flatten_cons, List.flatten_cons] at hpre
      obtain ⟨rfl, hrest⟩ := h.1.append hfirst hfirst' hpre
      rw [ih h.2 hrest' hrest]

/-- Words of one length in front of two strings. -/
theorem append_prefix_append_of_length {a b s t : List α} (hlength : a.length = b.length)
    (hpre : a ++ s <+: b ++ t) : a = b ∧ s <+: t := by
  obtain ⟨rest, hrest⟩ := hpre
  rw [List.append_assoc] at hrest
  obtain ⟨rfl, hst⟩ := List.append_inj hrest hlength
  exact ⟨rfl, rest, hst⟩

/-- Letters of one kind, up to the first letter of another kind. -/
theorem append_prefix_append {p : α → Prop} {a b s t : List α} (ha : ∀ x ∈ a, p x)
    (hb : ∀ x ∈ b, p x) (hs : ∃ x ∈ s.head?, ¬p x) (ht : ∀ x ∈ t.head?, ¬p x)
    (hpre : a ++ s <+: b ++ t) : a = b ∧ s <+: t := by
  induction a generalizing b with
  | nil =>
    obtain ⟨x, hx, hnot⟩ := hs
    cases b with
    | nil => exact ⟨rfl, hpre⟩
    | cons y b =>
      obtain ⟨s, rfl⟩ : ∃ rest, s = x :: rest := List.head?_eq_some_iff.mp hx
      obtain ⟨rfl, -⟩ := List.cons_prefix_cons.mp hpre
      exact absurd (hb x List.mem_cons_self) hnot
  | cons x a ih =>
    rw [List.forall_mem_cons] at ha
    cases b with
    | nil =>
      rw [List.nil_append] at hpre
      obtain ⟨t, rfl⟩ : ∃ rest, t = x :: rest := by
        obtain ⟨rest, hrest⟩ := hpre
        exact ⟨a ++ s ++ rest, by rw [← hrest]; rfl⟩
      exact absurd ha.1 (ht x rfl)
    | cons y b =>
      rw [List.forall_mem_cons] at hb
      rw [List.cons_append, List.cons_append, List.cons_prefix_cons] at hpre
      obtain ⟨rfl, hrest⟩ := ih ha.2 hb.2 hpre.2
      exact ⟨by rw [hpre.1], hrest⟩

/-- Applying an involution to every letter keeps prefixes apart. -/
theorem map_prefix_map_iff {f : α → α} (hf : Function.Involutive f) {a b : List α} :
    a.map f <+: b.map f ↔ a <+: b := by
  refine ⟨fun h => ?_, fun h => h.map f⟩
  have hback := h.map f
  rwa [List.map_map, List.map_map, hf.comp_self, List.map_id, List.map_id] at hback

/-- A string is ordered by its first part, unless the smaller one is a prefix. -/
theorem append_lt_append [LinearOrder α] {a b : List α} (h : a < b) (hpre : ¬a <+: b)
    (s t : List α) : a ++ s < b ++ t := by
  induction a generalizing b with
  | nil => exact absurd List.nil_prefix hpre
  | cons x a ih =>
    cases b with
    | nil => exact absurd h (List.not_lt_nil _)
    | cons y b =>
      rw [List.cons_append, List.cons_append, List.cons_lt_cons_iff]
      rcases List.cons_lt_cons_iff.mp h with hlt | ⟨rfl, hlt⟩
      · exact .inl hlt
      · exact .inr ⟨rfl, ih hlt fun hp => hpre (List.cons_prefix_cons.mpr ⟨rfl, hp⟩)⟩

end PrefixCode
