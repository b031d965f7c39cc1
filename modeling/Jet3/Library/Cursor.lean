import Mathlib.Data.List.Basic

/-!
# Cursors

A cursor is a state whose step returns an item, the end, or an error, with the state after it.
`Yields` relates a cursor to the items its successive steps return before the end; a cursor that
meets an error yields no list.

* `Yields.eq_of_represents` is the simulation rule: where the states represent lists, and each step
  that does not fail takes the head off the represented list, what is yielded is what was
  represented;
* `Yields.forall_mem` is the invariant rule for the items.
-/

namespace Cursor

universe u v w

variable {σ : Type u} {ε : Type v} {α : Type w} {next : σ → Except ε (Option α) × σ}

/-- Successive steps from a state return the items of a list and then the end. -/
inductive Yields (next : σ → Except ε (Option α) × σ) : σ → List α → Prop
  | done {s : σ} (h : (next s).1 = .ok none) : Yields next s []
  | item {s : σ} {a : α} {l : List α} (h : (next s).1 = .ok (some a))
    (rest : Yields next (next s).2 l) :
      Yields next s (a :: l)

/-- Where every step that does not fail takes the head off the list its state represents, the cursor
can yield only that list. -/
theorem Yields.eq_of_represents {R : σ → List α → Prop}
    (hstep : ∀ s l result, R s l → (next s).1 = .ok result →
      result = l.head? ∧ R (next s).2 l.tail)
    {s : σ} {l l' : List α} (h : Yields next s l') (hl : R s l) : l' = l := by
  induction h generalizing l with
  | done hend =>
    obtain ⟨hhead, -⟩ := hstep _ l _ hl hend
    exact (List.head?_eq_none_iff.mp hhead.symm).symm
  | item hitem _ ih =>
    obtain ⟨hhead, hrest⟩ := hstep _ l _ hl hitem
    rw [ih hrest, List.cons_head?_tail hhead.symm]

/-- What a step keeps of its state and grants its item holds of every item yielded. -/
theorem Yields.forall_mem {I : σ → Prop} {P : α → Prop}
    (hstep : ∀ s a, I s → (next s).1 = .ok (some a) → P a ∧ I (next s).2)
    {s : σ} {l : List α} (h : Yields next s l) (hs : I s) : ∀ a ∈ l, P a := by
  induction h with
  | done => simp
  | item hitem _ ih =>
    obtain ⟨ha, hnext⟩ := hstep _ _ hs hitem
    exact List.forall_mem_cons.mpr ⟨ha, ih hnext⟩

end Cursor
