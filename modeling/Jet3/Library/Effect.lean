import Mathlib.Logic.Basic

/-!
# Effects that may fail

A computation that changes a state and may fail, keeping the state it reached: what a sequence of
system calls does.

* `Effect σ ε α` is the monad, with `fail`, `attempt` to look at a failure and `mapError`;
* `Triple P x Q E` says that from a state in `P` a success of `x` ends in `Q` and a failure in `E`.
  Its rules follow the ways effects are composed.
-/

/-- A computation over a state `σ` that returns an `α` or fails with an `ε`. -/
def Effect (σ ε α : Type) : Type := σ → Except ε α × σ

namespace Effect

variable {σ ε ε' α β : Type}

instance : Monad (Effect σ ε) where
  pure a := fun s => (.ok a, s)
  bind x f := fun s =>
    match x s with
    | (.ok a, s') => f a s'
    | (.error e, s') => (.error e, s')

/-- Fails with `e`. -/
def fail (e : ε) : Effect σ ε α := fun s => (.error e, s)

/-- Changes the state. -/
def change (f : σ → σ) : Effect σ ε Unit := fun s => (.ok (), f s)

/-- The result of `x`, which may be a failure. -/
def attempt (x : Effect σ ε α) : Effect σ ε' (Except ε α) := fun s => (.ok (x s).1, (x s).2)

/-- Runs `x` with its failure replaced. -/
def mapError (f : ε → ε') (x : Effect σ ε α) :
    Effect σ ε' α := fun s => ((x s).1.mapError f, (x s).2)

/-! ## Triples -/

/-- What holds of a result and of the state it comes with. -/
def Post (Q : α → σ → Prop) (E : ε → σ → Prop) : Except ε α → σ → Prop
  | .ok a => Q a
  | .error e => E e

/-- From a state in `P`, a success of `x` with `a` ends in `Q a` and a failure with `e` in `E e`. -/
def Triple (P : σ → Prop) (x : Effect σ ε α) (Q : α → σ → Prop) (E : ε → σ → Prop) : Prop :=
  ∀ s, P s → Post Q E (x s).1 (x s).2

/-- `x` keeps `I`, whether it succeeds or fails. -/
def Keeps (I : σ → Prop) (x : Effect σ ε α) : Prop :=
  Triple I x (fun _ => I) fun _ => I

/-- A sequence stops at the first error and keeps the state it was met in. -/
theorem bind_apply (x : Effect σ ε α) (f : α → Effect σ ε β) (s : σ) :
    (x >>= f) s = match x s with
      | (.ok a, s') => f a s'
      | (.error e, s') => (.error e, s') :=
  rfl

namespace Triple

variable {P P' : σ → Prop} {x : Effect σ ε α} {Q Q' : α → σ → Prop} {E E' : ε → σ → Prop}

/-- A result leaves the state as it is. -/
theorem of_pure {a : α} (h : ∀ s, P s → Q a s) : Triple P (pure a : Effect σ ε α) Q E :=
  fun s hs => h s hs

/-- So does a failure. -/
theorem of_fail {e : ε} (h : ∀ s, P s → E e s) : Triple P (fail e : Effect σ ε α) Q E :=
  fun s hs => h s hs

/-- The rule of a change of the state. -/
theorem of_change {f : σ → σ} {Q : Unit → σ → Prop} (h : ∀ s, P s → Q () (f s)) :
    Triple P (change f : Effect σ ε Unit) Q E :=
  fun s hs => h s hs

/-- A sequence: what the first part leaves is what the second one starts from. -/
theorem bind {f : α → Effect σ ε β} {R : β → σ → Prop} (hx : Triple P x Q E)
    (hf : ∀ a, Triple (Q a) (f a) R E) : Triple P (x >>= f) R E := by
  intro s hs
  have h := hx s hs
  rw [bind_apply]
  revert h
  rcases x s with ⟨e | a, s'⟩
  · exact id
  · exact hf a s'

/-- Stronger preconditions and weaker postconditions. -/
theorem mono (h : Triple P x Q E) (hP : ∀ s, P' s → P s) (hQ : ∀ a s, Q a s → Q' a s)
    (hE : ∀ e s, E e s → E' e s) : Triple P' x Q' E' := by
  intro s hs
  have hx := h s (hP s hs)
  rcases hresult : (x s).1 with e | a <;> rw [hresult] at hx
  · exact hE e _ hx
  · exact hQ a _ hx

/-- A precondition that does not depend on the state. -/
theorem of_and {p : Prop} (h : p → Triple P x Q E) : Triple (fun s => p ∧ P s) x Q E :=
  fun s hs => h hs.1 s hs.2

/-- A failure that is looked at is a value. -/
theorem attempt {E' : ε' → σ → Prop} (h : Triple P x Q E) :
    Triple P (x.attempt : Effect σ ε' (Except ε α)) (Post Q E) E' :=
  fun s hs => h s hs

/-- The rule of an error that is renamed. -/
theorem mapError {f : ε → ε'} {E' : ε' → σ → Prop} (h : Triple P x Q fun e => E' (f e)) :
    Triple P (x.mapError f) Q E' := by
  intro s hs
  have hx := h s hs
  unfold Effect.mapError
  rcases hresult : (x s).1 with e | a <;> rw [hresult] at hx <;> exact hx

end Triple

namespace Keeps

variable {I : σ → Prop} {x : Effect σ ε α}

/-- A result keeps every condition. -/
theorem of_pure {a : α} : Keeps I (pure a : Effect σ ε α) := Triple.of_pure fun _ hs => hs

/-- A failure keeps every condition. -/
theorem of_fail {e : ε} : Keeps I (fail e : Effect σ ε α) := Triple.of_fail fun _ hs => hs

/-- A sequence keeps what its parts keep. -/
theorem bind {f : α → Effect σ ε β} (hx : Keeps I x) (hf : ∀ a, Keeps I (f a)) :
    Keeps I (x >>= f) :=
  Triple.bind hx hf

/-- Catching an error keeps what the work keeps. -/
theorem attempt (h : Keeps I x) : Keeps I (x.attempt : Effect σ ε' (Except ε α)) := by
  intro s hs
  have hx := h s hs
  show I (x s).2
  rcases hresult : (x s).1 with e | a <;> rw [hresult] at hx <;> exact hx

/-- Renaming an error keeps what the work keeps. -/
theorem mapError {f : ε → ε'} (h : Keeps I x) : Keeps I (x.mapError f) :=
  Triple.mapError h

/-- The state any run ends in. -/
theorem snd (h : Keeps I x) {s : σ} (hs : I s) : I (x s).2 := by
  have hx := h s hs
  rcases hresult : (x s).1 with e | a <;> rw [hresult] at hx <;> exact hx

end Keeps

end Effect
