import Mathlib.Data.List.Forall2
import Mathlib.Logic.Basic

/-!
# Inverting successful computations

A fallible function is a value of `Except ε α`. This module gives the inversion rules a proof
about a successful call uses: one equivalence per way of composing fallible steps, each of the
form `step = .ok a ↔ …`. They form a simp set that turns "the whole call returned `a`" into the
facts each step established.

* `refuseIf c e` fails with `e` when `c` holds, and `okOr x e` fails with `e` when the optional
  value `x` is absent;
* `Avoids e x` says that `x` does not fail with `e`, with one rule per way of composing steps;
* `foldlM_ok_induction` is the invariant rule of a fallible loop over a list, and
  `exists_foldlM_ok` its total form: where every iteration succeeds, so does the loop.
-/

namespace Outcome

universe u v

variable {ε ε' : Type v} {α β σ : Type u}

/-- Fails with `e` when `c` holds: an early return of an error. -/
def refuseIf (c : Prop) [Decidable c] (e : ε) : Except ε Unit :=
  if c then .error e else .ok ()

/-- The value of `x`, or the error `e` when it is absent. -/
def okOr (x : Option α) (e : ε) : Except ε α :=
  match x with
  | some a => .ok a
  | none => .error e

/-- A sequence succeeds exactly when both steps do. -/
@[simp]
theorem bind_ok_iff {x : Except ε α} {f : α → Except ε β} {b : β} :
    (x >>= f) = .ok b ↔ ∃ a, x = .ok a ∧ f a = .ok b := by
  cases x <;> simp [bind, Except.bind]

@[simp]
theorem pure_ok_iff {a b : α} : (pure a : Except ε α) = .ok b ↔ a = b := by
  simp [pure, Except.pure]

@[simp]
theorem throw_ok_iff {e : ε} {b : α} : (throw e : Except ε α) = .ok b ↔ False := by
  simp [throw, throwThe, MonadExceptOf.throw]

@[simp]
theorem map_ok_iff {x : Except ε α} {f : α → β} {b : β} :
    (f <$> x) = .ok b ↔ ∃ a, x = .ok a ∧ f a = b := by
  cases x <;> simp [Functor.map, Except.map]

@[simp]
theorem mapError_ok_iff {x : Except ε α} {f : ε → ε'} {a : α} :
    x.mapError f = .ok a ↔ x = .ok a := by
  cases x <;> simp [Except.mapError]

/-- An early return was not taken. -/
@[simp]
theorem refuseIf_ok_iff {c : Prop} [Decidable c] {e : ε} {u : Unit} :
    refuseIf c e = .ok u ↔ ¬c := by
  unfold refuseIf
  split <;> simp [*]

@[simp]
theorem okOr_ok_iff {x : Option α} {e : ε} {a : α} : okOr x e = .ok a ↔ x = some a := by
  cases x <;> simp [okOr]

@[simp]
theorem exists_unit {p : Unit → Prop} : (∃ u, p u) ↔ p () :=
  ⟨fun ⟨_, h⟩ => h, fun h => ⟨(), h⟩⟩

/-- An `if` whose first branch fails succeeds exactly when the second one is reached. -/
@[simp]
theorem ite_error_ok_iff {c : Prop} [Decidable c] {e : ε} {x : Except ε α} {a : α} :
    (if c then .error e else x) = .ok a ↔ ¬c ∧ x = .ok a := by
  split <;> simp [*]

/-- What a successful computation returns. -/
theorem eq_ok_get {x : Except ε α} (h : x.toOption.isSome = true) : x = .ok (x.toOption.get h) := by
  cases x with
  | ok a => rfl
  | error e => cases h

/-- A computation that evaluates to a value succeeds. -/
theorem exists_ok {x : Except ε α} (h : x.toOption.isSome = true) : ∃ a, x = .ok a :=
  ⟨_, eq_ok_get h⟩

/-- A computation that evaluates to a present value succeeds with it. -/
theorem exists_ok_some {x : Except ε (Option α)} (h : x.toOption.join.isSome = true) :
    ∃ a, x = .ok (some a) := by
  obtain ⟨a, ha⟩ := Option.isSome_iff_exists.mp h
  rcases x with e | _ | b
  · simp [Except.toOption] at ha
  · simp [Except.toOption] at ha
  · exact ⟨b, rfl⟩

/-- A computation that evaluates to a value with a property succeeds with one. -/
theorem exists_ok_and {x : Except ε α} {p : α → Bool} (h : x.toOption.any p = true) :
    ∃ a, x = .ok a ∧ p a = true := by
  cases x with
  | error e => simp [Except.toOption] at h
  | ok a => exact ⟨a, rfl, h⟩

/-- What evaluates to true of the value of a computation holds of it. -/
theorem forall_ok {x : Except ε α} {p : α → Bool} (h : x.toOption.all p = true) :
    ∀ a, x = .ok a → p a = true := by
  rintro a rfl
  exact h

/-- A sequence fails with the failure of its first part, or of its second on what the first
returned. -/
theorem bind_error_iff {x : Except ε α} {f : α → Except ε β} {e : ε} :
    (x >>= f) = .error e ↔ x = .error e ∨ ∃ a, x = .ok a ∧ f a = .error e := by
  cases x <;> simp [bind, Except.bind]

/-- A loop that fails fails in one of its iterations. -/
theorem foldlM_error {f : σ → α → Except ε σ} {l : List α} {s : σ} {e : ε}
    (h : l.foldlM f s = .error e) :
    ∃ done a rest t, l = done ++ a :: rest ∧ done.foldlM f s = .ok t ∧ f t a = .error e := by
  induction l generalizing s with
  | nil => cases h
  | cons a l ih =>
    rw [List.foldlM_cons, bind_error_iff] at h
    rcases h with hfirst | ⟨t, hfirst, hrest⟩
    · exact ⟨[], a, l, s, rfl, rfl, hfirst⟩
    · obtain ⟨done, b, rest, t', rfl, hdone, hfailed⟩ := ih hrest
      refine ⟨a :: done, b, rest, t', rfl, ?_, hfailed⟩
      rw [List.foldlM_cons, bind_ok_iff]
      exact ⟨t, hfirst, hdone⟩

/-- The invariant rule of a fallible loop: what holds of the initial state and is preserved by
every successful iteration holds of the state a successful loop returns. The invariant may
mention the items consumed so far. -/
theorem foldlM_ok_induction {f : σ → α → Except ε σ} (motive : List α → σ → Prop)
    {l : List α} {s s' : σ} (init : motive [] s)
    (step : ∀ (done : List α) (a : α) (rest : List α) (t t' : σ), l = done ++ a :: rest →
      motive done t → f t a = .ok t' → motive (done ++ [a]) t')
    (h : l.foldlM f s = .ok s') : motive l s' := by
  suffices key : ∀ (rest done : List α) (t : σ), l = done ++ rest → motive done t →
      rest.foldlM f t = .ok s' → motive l s' from key l [] s rfl init h
  intro rest
  induction rest with
  | nil =>
    intro done t hl hm hr
    simp only [List.foldlM_nil, pure_ok_iff] at hr
    subst hr
    simpa [hl] using hm
  | cons a rest ih =>
    intro done t hl hm hr
    simp only [List.foldlM_cons, bind_ok_iff] at hr
    obtain ⟨t', hstep, hrest⟩ := hr
    exact ih (done ++ [a]) t' (by simp [hl]) (step done a rest t t' hl hm hstep) hrest

/-- Two loops over related items that both succeed keep a relation between their states that every
pair of iterations keeps. The relation may mention the items consumed so far. -/
theorem foldlM_lockstep {τ β ε' : Type*} {f : σ → α → Except ε σ} {g : τ → β → Except ε' τ}
    {items : α → β → Prop} (motive : List α → List β → σ → τ → Prop) {l : List α} {l' : List β}
    {s s' : σ} {t t' : τ} (hitems : List.Forall₂ items l l') (init : motive [] [] s t)
    (step : ∀ (done : List α) (done' : List β) (a : α) (b : β) (u u' : σ) (v v' : τ), items a b →
      motive done done' u v → f u a = .ok u' → g v b = .ok v' →
        motive (done ++ [a]) (done' ++ [b]) u' v')
    (hf : l.foldlM f s = .ok s') (hg : l'.foldlM g t = .ok t') : motive l l' s' t' := by
  suffices key : ∀ (done : List α) (done' : List β) (s : σ) (t : τ), motive done done' s t →
      l.foldlM f s = .ok s' → l'.foldlM g t = .ok t' → motive (done ++ l) (done' ++ l') s' t' from
    key [] [] s t init hf hg
  clear init hf hg
  induction hitems with
  | nil =>
    intro done done' s t hm hf hg
    simp only [List.foldlM_nil, pure_ok_iff] at hf hg
    simpa [hf, hg] using hm
  | @cons a b rest rest' hitem _ ih =>
    intro done done' s t hm hf hg
    simp only [List.foldlM_cons, bind_ok_iff] at hf hg
    obtain ⟨u, hu, hf⟩ := hf
    obtain ⟨v, hv, hg⟩ := hg
    simpa using ih (done ++ [a]) (done' ++ [b]) u v (step _ _ _ _ _ _ _ _ hitem hm hu hv) hf hg

/-- A loop succeeds where every iteration from an invariant state does and keeps the invariant. -/
theorem exists_foldlM_ok {f : σ → α → Except ε σ} (motive : List α → σ → Prop) {l : List α} {s : σ}
    (init : motive [] s)
    (step : ∀ (done : List α) (a : α) (rest : List α) (t : σ), l = done ++ a :: rest →
      motive done t → ∃ t', f t a = .ok t' ∧ motive (done ++ [a]) t') :
    ∃ s', l.foldlM f s = .ok s' ∧ motive l s' := by
  suffices key : ∀ (rest done : List α) (t : σ), l = done ++ rest → motive done t →
      ∃ s', rest.foldlM f t = .ok s' ∧ motive l s' from key l [] s rfl init
  intro rest
  induction rest with
  | nil =>
    intro done t hl hm
    rw [List.append_nil] at hl
    exact ⟨t, rfl, hl ▸ hm⟩
  | cons a rest ih =>
    intro done t hl hm
    obtain ⟨t', hstep, hm'⟩ := step done a rest t hl hm
    obtain ⟨s', hrest, hmotive⟩ := ih (done ++ [a]) t' (by simp [hl]) hm'
    exact ⟨s', by rw [List.foldlM_cons, bind_ok_iff]; exact ⟨t', hstep, hrest⟩, hmotive⟩

/-- A check of every item of a list succeeds exactly when every item passes. -/
@[simp]
theorem forM_ok_iff {f : α → Except ε PUnit} {l : List α} {u : PUnit} :
    forM l f = .ok u ↔ ∀ a ∈ l, f a = .ok ⟨⟩ := by
  induction l with
  | nil => simp
  | cons a l ih =>
    simp only [List.forM_cons, bind_ok_iff, ih, List.forall_mem_cons]
    exact ⟨fun ⟨_, ha, hl⟩ => ⟨ha, hl⟩, fun ⟨ha, hl⟩ => ⟨_, ha, hl⟩⟩

/-- A fallible map whose items all succeed is a map. -/
theorem mapM_eq_ok_map {f : α → Except ε β} {g : α → β} {l : List α}
    (h : ∀ a ∈ l, f a = .ok (g a)) : l.mapM f = .ok (l.map g) := by
  induction l with
  | nil => rfl
  | cons a l ih =>
    rw [List.mapM_cons, h a List.mem_cons_self, ih fun b hb => h b (List.mem_cons_of_mem a hb)]
    rfl

/-- A pass over images, each of which succeeds. -/
theorem mapM_map_eq_ok {γ : Type u} {f : β → Except ε γ} {h : α → β} {g : α → γ} {l : List α}
    (hok : ∀ a ∈ l, f (h a) = .ok (g a)) : (l.map h).mapM f = .ok (l.map g) := by
  rw [List.mapM_map]
  exact mapM_eq_ok_map hok

/-- A fallible map whose successes are those of a total function is the map of it. -/
theorem eq_map_of_mapM_ok {f : α → Except ε β} {g : α → β} {l : List α} {l' : List β}
    (hok : ∀ a ∈ l, ∀ b, f a = .ok b → b = g a) (h : l.mapM f = .ok l') : l' = l.map g := by
  induction l generalizing l' with
  | nil =>
    simp only [List.mapM_nil, pure_ok_iff] at h
    exact h.symm
  | cons a l ih =>
    simp only [List.mapM_cons, bind_ok_iff, pure_ok_iff] at h
    obtain ⟨b, hb, rest, hrest, rfl⟩ := h
    rw [List.map_cons, hok a List.mem_cons_self b hb,
      ih (fun c hc => hok c (List.mem_cons_of_mem a hc)) hrest]

/-- A fallible map that succeeds is the map of the results. -/
theorem exists_eq_map_of_mapM_ok [Nonempty β] {f : α → Except ε β} {l : List α} {l' : List β}
    (h : l.mapM f = .ok l') : ∃ g : α → β, l' = l.map g ∧ ∀ a ∈ l, f a = .ok (g a) := by
  classical
  have hall : ∀ a ∈ l, ∃ b, f a = .ok b := by
    induction l generalizing l' with
    | nil => simp
    | cons a l ih =>
      simp only [List.mapM_cons, bind_ok_iff, pure_ok_iff] at h
      obtain ⟨b, hb, rest, hrest, -⟩ := h
      exact List.forall_mem_cons.mpr ⟨⟨b, hb⟩, ih hrest⟩
  let g : α → β := fun a => if ha : ∃ b, f a = .ok b then ha.choose else Classical.ofNonempty
  have hg : ∀ a ∈ l, f a = .ok (g a) := by
    intro a ha
    simp only [g, dif_pos (hall a ha)]
    exact (hall a ha).choose_spec
  refine ⟨g, ?_, hg⟩
  rw [mapM_eq_ok_map hg, Except.ok.injEq] at h
  exact h.symm

/-- A fallible map relates every item to its result. -/
theorem forall₂_of_mapM_ok {f : α → Except ε β} {l : List α} {l' : List β}
    (h : l.mapM f = .ok l') : List.Forall₂ (fun a b => f a = .ok b) l l' := by
  induction l generalizing l' with
  | nil =>
    simp only [List.mapM_nil, pure_ok_iff] at h
    exact h ▸ .nil
  | cons a l ih =>
    simp only [List.mapM_cons, bind_ok_iff, pure_ok_iff] at h
    obtain ⟨b, hb, rest, hrest, rfl⟩ := h
    exact .cons hb (ih hrest)

/-- A fallible map succeeds exactly when every item does. -/
theorem exists_mapM_ok_iff {f : α → Except ε β} {l : List α} :
    (∃ l', l.mapM f = .ok l') ↔ ∀ a ∈ l, ∃ b, f a = .ok b := by
  induction l with
  | nil => simp [pure, Except.pure]
  | cons a l ih =>
    rw [List.forall_mem_cons, ← ih]
    simp only [List.mapM_cons, bind_ok_iff, pure_ok_iff]
    constructor
    · rintro ⟨_, b, hb, rest, hrest, -⟩
      exact ⟨⟨b, hb⟩, rest, hrest⟩
    · rintro ⟨⟨b, hb⟩, rest, hrest⟩
      exact ⟨_, b, hb, rest, hrest, rfl⟩

/-! ## Avoiding a failure -/

/-- The computation does not fail with `e`. -/
def Avoids (e : ε) (x : Except ε α) : Prop :=
  x ≠ .error e

variable {e : ε}

/-- A result is no error. -/
theorem Avoids.ok (a : α) : Avoids e (.ok a) :=
  fun h => by cases h

theorem Avoids.pure (a : α) : Avoids e (pure a) :=
  Avoids.ok a

/-- Another error is met. -/
theorem Avoids.error {e' : ε} (h : e' ≠ e) : Avoids e (.error e' : Except ε α) :=
  fun heq => h (Except.error.inj heq)

/-- A check refuses with its own error only. -/
theorem Avoids.refuseIf {c : Prop} [Decidable c] {e' : ε} (h : e' ≠ e) :
    Avoids e (refuseIf c e') := by
  unfold Outcome.refuseIf
  split
  · exact Avoids.error h
  · exact Avoids.ok ()

/-- A missing value is reported by its own error only. -/
theorem Avoids.okOr {x : Option α} {e' : ε} (h : e' ≠ e) : Avoids e (okOr x e') := by
  cases x with
  | none => exact Avoids.error h
  | some a => exact Avoids.ok a

/-- A sequence avoids a failure where both steps do. -/
theorem Avoids.bind {x : Except ε α} {f : α → Except ε β} (hx : Avoids e x)
    (hf : ∀ a, x = .ok a → Avoids e (f a)) : Avoids e (x >>= f) := by
  cases x with
  | error e' => exact fun h => hx (congrArg Except.error (Except.error.inj h))
  | ok a => exact hf a rfl

/-- A loop avoids a failure where every iteration from an invariant state does. -/
theorem Avoids.foldlM {f : σ → α → Except ε σ} (motive : List α → σ → Prop) {l : List α} {s : σ}
    (init : motive [] s)
    (step : ∀ (done : List α) (a : α) (rest : List α) (t : σ), l = done ++ a :: rest →
      motive done t → Avoids e (f t a) ∧ ∀ t', f t a = .ok t' → motive (done ++ [a]) t') :
    Avoids e (l.foldlM f s) := by
  suffices key : ∀ (rest done : List α) (t : σ), l = done ++ rest → motive done t →
      Avoids e (rest.foldlM f t) from key l [] s rfl init
  intro rest
  induction rest with
  | nil => exact fun _ t _ _ => Avoids.ok t
  | cons a rest ih =>
    intro done t hl hm
    obtain ⟨hstep, hnext⟩ := step done a rest t hl hm
    rw [List.foldlM_cons]
    exact hstep.bind fun t' ht' => ih (done ++ [a]) t' (by simp [hl]) (hnext t' ht')

/-- A pass meets the errors of its steps only. -/
theorem Avoids.forM {f : α → Except ε PUnit} {l : List α} (h : ∀ a ∈ l, Avoids e (f a)) :
    Avoids e (forM l f) := by
  induction l with
  | nil => exact Avoids.ok _
  | cons a l ih =>
    rw [List.forM_cons]
    exact (h a List.mem_cons_self).bind fun _ _ => ih fun b hb => h b (List.mem_cons_of_mem a hb)

end Outcome
