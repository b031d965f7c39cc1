import Jet3.Library.Outcome
import Mathlib.Algebra.BigOperators.Ring.Finset
import Mathlib.Algebra.Order.BigOperators.Group.Finset
import Mathlib.Order.WellFoundedSet

/-!
# Worklists

A worklist takes items from the front of a queue, lets each of them change a state and push further
items at the back, and ends when the queue is empty. A step may fail. `run` performs at most `fuel`
steps; its result is `none` when the queue is not empty by then.

* `run_induction` is the invariant rule: what every step preserves holds at the end.
* `run_mono` says more fuel changes nothing once the queue is empty.
* `run_level` performs the items at the front, and leaves what they push.
* `run_eq_none_of_returns` says that a run which comes back to where it was never ends.
* `exists_run` is the termination rule. Items feed each other; an item that feeds itself, through
  whatever chain, must use up a potential of its own with each push, and any other item may be
  pushed at most `width` times by each item feeding it.
-/

namespace Worklist

open Outcome

variable {ε σ ι : Type}

/-- Performs at most `fuel` steps. -/
def run (step : σ → ι → Except ε (σ × List ι)) : ℕ → σ → List ι → Except ε (Option σ)
  | _, s, [] => .ok (some s)
  | 0, _, _ :: _ => .ok none
  | fuel + 1, s, i :: rest => do
    let (s', pushed) ← step s i
    run step fuel s' (rest ++ pushed)

variable {step : σ → ι → Except ε (σ × List ι)}

/-- An empty queue is the end of a run. -/
@[simp]
theorem run_nil (fuel : ℕ) (s : σ) : run step fuel s [] = .ok (some s) := by
  cases fuel <;> rfl

/-- A queue without fuel is left. -/
@[simp]
theorem run_zero_cons (s : σ) (i : ι) (rest : List ι) : run step 0 s (i :: rest) = .ok none := rfl

/-- One step of a run: the first item is taken, and what it gives is queued. -/
theorem run_succ_cons (fuel : ℕ) (s : σ) (i : ι) (rest : List ι) :
    run step (fuel + 1) s (i :: rest) =
      (step s i >>= fun result => run step fuel result.1 (rest ++ result.2)) := rfl

/-- The invariant rule: what holds of the initial state and queue, and is preserved by every step
on the front item, holds of the final state with an empty queue. -/
theorem run_induction (motive : σ → List ι → Prop)
    (preserved : ∀ s i rest s' pushed, motive s (i :: rest) → step s i = .ok (s', pushed) →
      motive s' (rest ++ pushed))
    {fuel : ℕ} {s s' : σ} {queue : List ι} (init : motive s queue)
    (h : run step fuel s queue = .ok (some s')) : motive s' [] := by
  induction fuel generalizing s queue with
  | zero =>
    cases queue with
    | nil =>
      simp only [run_nil, Except.ok.injEq, Option.some.injEq] at h
      exact h ▸ init
    | cons i rest => simp at h
  | succ fuel ih =>
    cases queue with
    | nil =>
      simp only [run_nil, Except.ok.injEq, Option.some.injEq] at h
      exact h ▸ init
    | cons i rest =>
      rw [run_succ_cons, bind_ok_iff] at h
      obtain ⟨⟨t, pushed⟩, hstep, hrun⟩ := h
      exact ih (preserved s i rest t pushed init hstep) hrun

/-- More fuel changes nothing once the queue is empty. -/
theorem run_mono {fuel more : ℕ} {s s' : σ} {queue : List ι} (hle : fuel ≤ more)
    (h : run step fuel s queue = .ok (some s')) : run step more s queue = .ok (some s') := by
  induction fuel generalizing s queue more with
  | zero =>
    cases queue with
    | nil => simpa using h
    | cons i rest => simp at h
  | succ fuel ih =>
    cases queue with
    | nil => simpa using h
    | cons i rest =>
      obtain ⟨more, rfl⟩ : ∃ k, more = k + 1 := ⟨more - 1, by omega⟩
      rw [run_succ_cons, bind_ok_iff] at h ⊢
      obtain ⟨result, hstep, hrun⟩ := h
      exact ⟨result, hstep, ih (by omega) hrun⟩

/-! ## Levels -/

/-- The level rule: items that all succeed are performed before what they push, which stands behind
the rest of the queue in their order. -/
theorem run_level {α : Type} {l : List α} {s : σ} (item : α → ι) (children : α → List ι)
    (motive : List α → σ → Prop) (init : motive [] s)
    (performed : ∀ (done : List α) (a : α) (rest : List α) (t : σ), l = done ++ a :: rest →
      motive done t → ∃ t', step t (item a) = .ok (t', children a) ∧ motive (done ++ [a]) t') :
    ∃ s', motive l s' ∧ ∀ fuel queue,
      run step (l.length + fuel) s (l.map item ++ queue) =
        run step fuel s' (queue ++ l.flatMap children) := by
  suffices key : ∀ (rest done : List α) (t : σ), l = done ++ rest → motive done t →
      ∃ s', motive l s' ∧ ∀ fuel queue, run step (rest.length + fuel) t (rest.map item ++ queue) =
        run step fuel s' (queue ++ rest.flatMap children) from key l [] s rfl init
  intro rest
  induction rest with
  | nil =>
    intro done t hl hdone
    rw [List.append_nil] at hl
    refine ⟨t, hl ▸ hdone, fun fuel queue => ?_⟩
    rw [List.length_nil, Nat.zero_add, List.map_nil, List.nil_append, List.flatMap_nil,
      List.append_nil]
  | cons a rest ih =>
    intro done t hl hdone
    obtain ⟨t', hstep, hdone'⟩ := performed done a rest t hl hdone
    obtain ⟨s', hs', hrun⟩ := ih (done ++ [a]) t' (by simp [hl]) hdone'
    refine ⟨s', hs', fun fuel queue => ?_⟩
    rw [List.length_cons, Nat.add_right_comm, List.map_cons, List.cons_append, run_succ_cons, hstep,
      List.flatMap_cons, ← List.append_assoc]
    show run step (rest.length + fuel) t' (rest.map item ++ queue ++ children a) = _
    rw [List.append_assoc, hrun]

/-! ## Runs that never end -/

/-- Performs exactly `n` steps; nothing when the queue empties before. -/
def advance (step : σ → ι → Except ε (σ × List ι)) :
    ℕ → σ → List ι → Except ε (Option (σ × List ι))
  | 0, s, queue => .ok (some (s, queue))
  | _ + 1, _, [] => .ok none
  | n + 1, s, i :: rest => do
    let (s', pushed) ← step s i
    advance step n s' (rest ++ pushed)

/-- One step of so many. -/
theorem advance_succ_cons (n : ℕ) (s : σ) (i : ι) (rest : List ι) :
    advance step (n + 1) s (i :: rest) =
      (step s i >>= fun result => advance step n result.1 (rest ++ result.2)) := rfl

/-- Steps that were performed can be taken off the front of a run. -/
theorem run_add {n fuel : ℕ} {s s' : σ} {queue queue' : List ι}
    (h : advance step n s queue = .ok (some (s', queue'))) :
    run step (n + fuel) s queue = run step fuel s' queue' := by
  induction n generalizing s queue with
  | zero =>
    simp only [advance, Except.ok.injEq, Option.some.injEq, Prod.mk.injEq] at h
    rw [h.1, h.2, Nat.zero_add]
  | succ n ih =>
    cases queue with
    | nil => simp [advance] at h
    | cons i rest =>
      rw [advance_succ_cons, bind_ok_iff] at h
      obtain ⟨result, hstep, hrest⟩ := h
      rw [Nat.succ_add, run_succ_cons, hstep]
      exact ih hrest

/-- A run has not ended while steps remain to be performed. -/
theorem run_eq_none_of_lt {n fuel : ℕ} {s s' : σ} {queue queue' : List ι} (hlt : fuel < n)
    (h : advance step n s queue = .ok (some (s', queue'))) :
    run step fuel s queue = .ok none := by
  induction fuel generalizing n s queue with
  | zero =>
    obtain ⟨n, rfl⟩ : ∃ k, n = k + 1 := ⟨n - 1, by omega⟩
    cases queue with
    | nil => simp [advance] at h
    | cons i rest => rfl
  | succ fuel ih =>
    obtain ⟨n, rfl⟩ : ∃ k, n = k + 1 := ⟨n - 1, by omega⟩
    cases queue with
    | nil => simp [advance] at h
    | cons i rest =>
      rw [advance_succ_cons, bind_ok_iff] at h
      obtain ⟨result, hstep, hrest⟩ := h
      rw [run_succ_cons, hstep]
      exact ih (by omega) hrest

/-- A state and a queue that come back after some steps never end. -/
theorem run_eq_none_of_cycle {n : ℕ} {s : σ} {queue : List ι}
    (h : advance step (n + 1) s queue = .ok (some (s, queue))) (fuel : ℕ) :
    run step fuel s queue = .ok none := by
  induction fuel using Nat.strong_induction_on with
  | _ fuel ih =>
    rcases Nat.lt_or_ge fuel (n + 1) with hlt | hge
    · exact run_eq_none_of_lt hlt h
    · obtain ⟨more, rfl⟩ := Nat.exists_eq_add_of_le hge
      rw [run_add h]
      exact ih more (by omega)

/-- More steps go on where fewer have stopped. -/
theorem advance_add {n m : ℕ} {s s' : σ} {queue queue' : List ι}
    (h : advance step n s queue = .ok (some (s', queue'))) :
    advance step (n + m) s queue = advance step m s' queue' := by
  induction n generalizing s queue with
  | zero =>
    simp only [advance, Except.ok.injEq, Option.some.injEq, Prod.mk.injEq] at h
    rw [h.1, h.2, Nat.zero_add]
  | succ n ih =>
    cases queue with
    | nil => simp [advance] at h
    | cons i rest =>
      rw [advance_succ_cons, bind_ok_iff] at h
      obtain ⟨result, hstep, hrest⟩ := h
      rw [Nat.succ_add, advance_succ_cons, hstep]
      exact ih hrest

/-- One more step, from where some steps lead. -/
theorem advance_succ {n : ℕ} {s t t' : σ} {queue rest pushed : List ι} {i : ι}
    (h : advance step n s queue = .ok (some (t, i :: rest))) (hstep : step t i = .ok (t', pushed)) :
    advance step (n + 1) s queue = .ok (some (t', rest ++ pushed)) := by
  rw [advance_add h, advance_succ_cons, hstep]
  rfl

/-- Where no step fails, some steps are performed, or the run ends before. -/
theorem exists_advance (Inv : σ → List ι → Prop)
    (total : ∀ s i rest, Inv s (i :: rest) →
      ∃ s' pushed, step s i = .ok (s', pushed) ∧ Inv s' (rest ++ pushed))
    {s : σ} {queue : List ι} (hinv : Inv s queue) (n : ℕ) :
    (∃ s', run step n s queue = .ok (some s')) ∨
      ∃ s' queue', advance step n s queue = .ok (some (s', queue')) ∧ Inv s' queue' := by
  induction n generalizing s queue with
  | zero => exact .inr ⟨s, queue, rfl, hinv⟩
  | succ n ih =>
    cases queue with
    | nil => exact .inl ⟨s, rfl⟩
    | cons i rest =>
      obtain ⟨t, pushed, hstep, ht⟩ := total s i rest hinv
      rw [run_succ_cons, advance_succ_cons, hstep]
      exact ih ht

/-- A run that has ended performed no further step. -/
theorem le_of_run {n fuel : ℕ} {s s' t : σ} {queue queue' : List ι}
    (hend : run step fuel s queue = .ok (some t))
    (h : advance step n s queue = .ok (some (s', queue'))) : n ≤ fuel := by
  by_contra hlt
  rw [run_eq_none_of_lt (Nat.lt_of_not_le hlt) h] at hend
  cases hend

/-- A run that reaches the same state and queue twice never ends. -/
theorem run_eq_none_of_returns {n m : ℕ} {s t : σ} {queue queue' : List ι}
    (h : advance step n s queue = .ok (some (t, queue')))
    (hreturn : advance step (n + (m + 1)) s queue = .ok (some (t, queue'))) (fuel : ℕ) :
    run step fuel s queue = .ok none := by
  rcases Nat.lt_or_ge fuel n with hlt | hge
  · exact run_eq_none_of_lt hlt h
  · obtain ⟨more, rfl⟩ := Nat.exists_eq_add_of_le hge
    rw [advance_add h] at hreturn
    rw [run_add h]
    exact run_eq_none_of_cycle hreturn more

/-! ## Termination -/

section Termination

variable (items : Finset ι) (feeds : ι → ι → Prop)

/-- On finitely many items a relation without cycles is well founded. -/
theorem wellFounded_of_acyclic {r : ι → ι → Prop} {s : Set ι} (hs : s.Finite)
    (hmem : ∀ a b, r a b → a ∈ s ∧ b ∈ s) (h : ∀ a, ¬Relation.TransGen r a a) :
    WellFounded r := by
  have htrans : IsTrans ι (Relation.TransGen r) := ⟨fun _ _ _ => .trans⟩
  have hirrefl : Std.Irrefl (Relation.TransGen r) := ⟨h⟩
  have hstrict : IsStrictOrder ι (Relation.TransGen r) := { }
  exact Subrelation.wf (fun {a b} hr => ⟨.single hr, hmem a b hr⟩)
    (Set.wellFoundedOn_iff.mp (hs.wellFoundedOn (r := Relation.TransGen r)))

/-- An item that feeds itself through some chain. -/
def OnCycle (i : ι) : Prop := Relation.TransGen feeds i i

/-- The feeding of items that are on no cycle, seen from the fed item. -/
def FedOffCycle (fed feeder : ι) : Prop := feeds feeder fed ∧ ¬OnCycle feeds fed

/-- A path through items off the cycles is a path of feeds. -/
theorem transGen_feeds {a b : ι} (h : Relation.TransGen (FedOffCycle feeds) a b) :
    Relation.TransGen feeds b a ∧ ¬OnCycle feeds a := by
  induction h with
  | single h => exact ⟨.single h.1, h.2⟩
  | tail _ h ih => exact ⟨.head h.1 ih.1, ih.2⟩

/-- Off the cycles of a finite set, feeding is well founded. -/
theorem wellFounded_fedOffCycle :
    WellFounded fun fed feeder => FedOffCycle feeds fed feeder ∧ fed ∈ items ∧ feeder ∈ items := by
  refine wellFounded_of_acyclic items.finite_toSet (fun _ _ h => h.2) fun i hcycle => ?_
  have hfed := transGen_feeds feeds (Relation.TransGen.mono (fun _ _ h => h.1) _ _ hcycle)
  exact hfed.2 hfed.1

open Classical in
/-- The number of steps one occurrence of an item can cause off the cycles: its own, and those of
the items it feeds there. -/
noncomputable def weight (width : ℕ) : ι → ℕ :=
  (wellFounded_fedOffCycle items feeds).fix fun i rec =>
    1 + width * ∑ q ∈ items,
      if h : FedOffCycle feeds q i ∧ q ∈ items ∧ i ∈ items then rec q h else 0

open Classical in
/-- The weight of an item counts itself and what feeds it. -/
theorem weight_eq (width : ℕ) {i : ι} (hi : i ∈ items) :
    weight items feeds width i =
      1 + width * ∑ q ∈ items, if FedOffCycle feeds q i then weight items feeds width q else 0 := by
  rw [weight, WellFounded.fix_eq]
  congr 2
  refine Finset.sum_congr rfl fun q hq => ?_
  simp only [hq, hi, and_true]
  rfl

open Classical in
/-- What is left to do: the weights in the queue, and a weight for every push a cycle can still
afford. -/
noncomputable def remaining (width : ℕ) (potential : σ → ι → ℕ) (s : σ) (queue : List ι) : ℕ :=
  (queue.map (weight items feeds width)).sum +
    ∑ q ∈ items, if OnCycle feeds q then potential s q * weight items feeds width q else 0

variable {items feeds}
variable [DecidableEq ι]

/-- A sum over a list of items, item by item. -/
theorem sum_map_eq_sum_count (f : ι → ℕ) {l : List ι} (h : ∀ i ∈ l, i ∈ items) :
    (l.map f).sum = ∑ q ∈ items, l.count q * f q := by
  rw [Finset.sum_list_map_count]
  simp only [nsmul_eq_mul, Nat.cast_id]
  refine Finset.sum_subset (fun q hq => h q (List.mem_toFinset.mp hq)) fun q _ hq => ?_
  rw [List.count_eq_zero_of_not_mem (by simpa using hq), Nat.zero_mul]

open Classical in
/-- One step leaves strictly less to do. -/
theorem remaining_lt {width : ℕ} {potential : σ → ι → ℕ} {s s' : σ} {i : ι} {rest pushed : List ι}
    (hi : i ∈ items) (hitems : ∀ q ∈ pushed, q ∈ items) (hfeeds : ∀ q ∈ pushed, feeds i q)
    (hwidth : ∀ q, pushed.count q ≤ width)
    (hcycle : ∀ q, OnCycle feeds q → pushed.count q + potential s' q ≤ potential s q) :
    remaining items feeds width potential s' (rest ++ pushed) <
      remaining items feeds width potential s (i :: rest) := by
  have hpushed : (pushed.map (weight items feeds width)).sum +
      (∑ q ∈ items, if OnCycle feeds q then potential s' q * weight items feeds width q else 0) ≤
      width * (∑ q ∈ items, if FedOffCycle feeds q i then weight items feeds width q else 0) +
      ∑ q ∈ items, if OnCycle feeds q then potential s q * weight items feeds width q else 0 := by
    rw [sum_map_eq_sum_count _ hitems, Finset.mul_sum, ← Finset.sum_add_distrib,
      ← Finset.sum_add_distrib]
    refine Finset.sum_le_sum fun q _ => ?_
    by_cases hq : OnCycle feeds q
    · -- a push on a cycle is paid for by the potential of its item
      rw [if_pos hq, if_pos hq, if_neg fun h => h.2 hq, ← Nat.add_mul, Nat.mul_zero, Nat.zero_add]
      exact Nat.mul_le_mul_right _ (hcycle q hq)
    · rw [if_neg hq, if_neg hq, Nat.add_zero, Nat.add_zero]
      by_cases hmem : q ∈ pushed
      · rw [if_pos ⟨hfeeds q hmem, hq⟩]
        exact Nat.mul_le_mul_right _ (hwidth q)
      · rw [List.count_eq_zero_of_not_mem hmem, Nat.zero_mul]
        exact Nat.zero_le _
  have hweight := weight_eq items feeds width hi
  simp only [remaining, List.map_append, List.sum_append, List.map_cons, List.sum_cons]
  omega

/-- The termination rule: the queue empties, or a step fails, when off the cycles of the feeding
relation an item is pushed at most `width` times per step, and on the cycles every push uses up
potential of the pushed item. The invariant may speak of the queue. -/
theorem exists_run {width : ℕ} {potential : σ → ι → ℕ} (Inv : σ → List ι → Prop)
    (preserved : ∀ s i rest s' pushed, Inv s (i :: rest) → step s i = .ok (s', pushed) →
      Inv s' (rest ++ pushed))
    (hitems : ∀ s i rest s' pushed, Inv s (i :: rest) → step s i = .ok (s', pushed) →
      ∀ q ∈ pushed, q ∈ items)
    (hfeeds : ∀ s i rest s' pushed, Inv s (i :: rest) → step s i = .ok (s', pushed) →
      ∀ q ∈ pushed, feeds i q)
    (hwidth : ∀ s i rest s' pushed, Inv s (i :: rest) → step s i = .ok (s', pushed) →
      ∀ q, pushed.count q ≤ width)
    (hcycle : ∀ s i rest s' pushed, Inv s (i :: rest) → step s i = .ok (s', pushed) →
      ∀ q, OnCycle feeds q → pushed.count q + potential s' q ≤ potential s q)
    {s : σ} {queue : List ι} (hinv : Inv s queue) (hqueue : ∀ q ∈ queue, q ∈ items) :
    ∃ fuel, run step fuel s queue ≠ .ok none := by
  suffices key : ∀ fuel s queue, Inv s queue → (∀ q ∈ queue, q ∈ items) →
      remaining items feeds width potential s queue ≤ fuel →
      run step fuel s queue ≠ .ok none from ⟨_, key _ s queue hinv hqueue le_rfl⟩
  intro fuel
  induction fuel with
  | zero =>
    intro s queue _ hqueue hle
    cases queue with
    | nil => simp
    | cons i rest =>
      -- an item in the queue weighs at least its own step
      have hweight := weight_eq items feeds width (hqueue i List.mem_cons_self)
      simp only [remaining, List.map_cons, List.sum_cons] at hle
      omega
  | succ fuel ih =>
    intro s queue hinv hqueue hle
    cases queue with
    | nil => simp
    | cons i rest =>
      rw [run_succ_cons]
      rcases hstep : step s i with e | ⟨s', pushed⟩
      · simp [bind, Except.bind]
      · have hin := hitems s i rest s' pushed hinv hstep
        have hlt : remaining items feeds width potential s' (rest ++ pushed) <
            remaining items feeds width potential s (i :: rest) :=
          remaining_lt (hqueue i List.mem_cons_self) hin (hfeeds s i rest s' pushed hinv hstep)
            (hwidth s i rest s' pushed hinv hstep) (hcycle s i rest s' pushed hinv hstep)
        refine ih s' (rest ++ pushed) (preserved s i rest s' pushed hinv hstep) (fun q hq => ?_)
          (by omega)
        rcases List.mem_append.mp hq with h | h
        · exact hqueue q (List.mem_cons_of_mem i h)
        · exact hin q h

/-- Where no step fails, the queue empties. -/
theorem exists_run_ok {width : ℕ} {potential : σ → ι → ℕ} (Inv : σ → List ι → Prop)
    (preserved : ∀ s i rest s' pushed, Inv s (i :: rest) → step s i = .ok (s', pushed) →
      Inv s' (rest ++ pushed))
    (total : ∀ s i rest, Inv s (i :: rest) → ∃ result, step s i = .ok result)
    (hitems : ∀ s i rest s' pushed, Inv s (i :: rest) → step s i = .ok (s', pushed) →
      ∀ q ∈ pushed, q ∈ items)
    (hfeeds : ∀ s i rest s' pushed, Inv s (i :: rest) → step s i = .ok (s', pushed) →
      ∀ q ∈ pushed, feeds i q)
    (hwidth : ∀ s i rest s' pushed, Inv s (i :: rest) → step s i = .ok (s', pushed) →
      ∀ q, pushed.count q ≤ width)
    (hcycle : ∀ s i rest s' pushed, Inv s (i :: rest) → step s i = .ok (s', pushed) →
      ∀ q, OnCycle feeds q → pushed.count q + potential s' q ≤ potential s q)
    {s : σ} {queue : List ι} (hinv : Inv s queue) (hqueue : ∀ q ∈ queue, q ∈ items) :
    ∃ fuel s', run step fuel s queue = .ok (some s') := by
  obtain ⟨fuel, hfuel⟩ := exists_run Inv preserved hitems hfeeds hwidth hcycle hinv hqueue
  refine ⟨fuel, ?_⟩
  clear hqueue
  induction fuel generalizing s queue with
  | zero =>
    cases queue with
    | nil => exact ⟨s, rfl⟩
    | cons i rest => exact absurd rfl hfuel
  | succ fuel ih =>
    cases queue with
    | nil => exact ⟨s, rfl⟩
    | cons i rest =>
      obtain ⟨⟨t, pushed⟩, hstep⟩ := total s i rest hinv
      rw [run_succ_cons, hstep] at hfuel ⊢
      exact ih (preserved s i rest t pushed hinv hstep) hfuel

end Termination

end Worklist
