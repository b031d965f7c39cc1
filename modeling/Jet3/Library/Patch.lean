import Mathlib.Data.List.Basic
import Mathlib.Data.List.Perm.Basic

/-!
# Patches

A patch gives new values to some places. Patches that agree wherever two of them give a value can be
joined, and the join does not depend on their order.

* `Patch.diff before after` is what changed between two states, and `Patch.apply` carries it out;
* `Patch.join` is the patch of a list of patches, the first one deciding;
* `Patch.join_eq_some_iff` and `Patch.join_perm` hold where the patches agree pairwise.
-/

/-- New values for some of the places `ι`. -/
def Patch (ι α : Type*) : Type _ := ι → Option α

namespace Patch

variable {ι α : Type*}

/-- What changed from `before` to `after`. -/
def diff [DecidableEq α] (before after : ι → α) : Patch ι α := fun i =>
  if before i = after i then none else some (after i)

/-- The state `base` with the values of the patch. -/
def apply (patch : Patch ι α) (base : ι → α) : ι → α := fun i => (patch i).getD (base i)

/-- Where both patches give a value, they give the same. -/
def Agree (p q : Patch ι α) : Prop :=
  ∀ i a b, p i = some a → q i = some b → a = b

/-- All patches of a list at once; the first one decides. -/
def join (patches : List (Patch ι α)) : Patch ι α := fun i => patches.findSome? fun patch => patch i

/-- Agreement is symmetric. -/
theorem Agree.symm {p q : Patch ι α} (h : p.Agree q) : q.Agree p :=
  fun i a b hq hp => (h i b a hp hq).symm

@[simp]
theorem join_nil : join ([] : List (Patch ι α)) = fun _ => none :=
  rfl

/-- A difference has the new value where the old one is another. -/
theorem diff_eq_some_iff [DecidableEq α] {before after : ι → α} {i : ι} {a : α} :
    diff before after i = some a ↔ before i ≠ after i ∧ after i = a := by
  unfold diff
  split <;> simp [*]

/-- Carrying out what changed leads to the later state. -/
theorem apply_diff [DecidableEq α] (before after : ι → α) :
    (diff before after).apply before = after := by
  funext i
  unfold apply diff
  split
  next h => exact h
  next => rfl

section Join

variable {patches : List (Patch ι α)}

/-- What a join says is said by one of the patches. -/
theorem exists_of_join_eq_some {i : ι} {a : α} (h : join patches i = some a) :
    ∃ patch ∈ patches, patch i = some a :=
  List.exists_of_findSome?_eq_some h

/-- A patch is heard in a join of patches that agree. -/
theorem join_eq_some_of_mem (hagree : patches.Pairwise Agree) {patch : Patch ι α}
    (hmem : patch ∈ patches) {i : ι} {a : α} (h : patch i = some a) : join patches i = some a := by
  induction patches with
  | nil => simp at hmem
  | cons first patches ih =>
    rw [List.pairwise_cons] at hagree
    rw [join, List.findSome?_cons]
    rcases hfirst : first i with _ | b
    · rcases List.mem_cons.mp hmem with rfl | hmem
      · rw [hfirst] at h
        cases h
      · exact ih hagree.2 hmem
    · rcases List.mem_cons.mp hmem with rfl | hmem
      · exact hfirst.symm.trans h
      · exact congrArg some (hagree.1 patch hmem i b a hfirst h)

/-- A join of patches that agree says what any of them says. -/
theorem join_eq_some_iff (hagree : patches.Pairwise Agree) {i : ι} {a : α} :
    join patches i = some a ↔ ∃ patch ∈ patches, patch i = some a :=
  ⟨exists_of_join_eq_some, fun ⟨_, hmem, h⟩ => join_eq_some_of_mem hagree hmem h⟩

/-- A join is silent where all patches are. -/
theorem join_eq_none_iff {i : ι} : join patches i = none ↔ ∀ patch ∈ patches, patch i = none :=
  List.findSome?_eq_none_iff

/-- The order of patches that agree does not matter. -/
theorem join_perm (hagree : patches.Pairwise Agree) {patches' : List (Patch ι α)}
    (hperm : patches.Perm patches') : join patches = join patches' := by
  have hagree' : patches'.Pairwise Agree :=
    (hperm.pairwise_iff fun h => h.symm).mp hagree
  funext i
  rcases h : join patches' i with _ | a
  · rw [join_eq_none_iff] at h ⊢
    exact fun patch hmem => h patch (hperm.mem_iff.mp hmem)
  · obtain ⟨patch, hmem, ha⟩ := exists_of_join_eq_some h
    exact join_eq_some_of_mem hagree (hperm.mem_iff.mpr hmem) ha

/-- A patch agrees with a join exactly when it agrees with every patch joined. -/
theorem agree_join_iff (hagree : patches.Pairwise Agree) {patch : Patch ι α} :
    (join patches).Agree patch ↔ ∀ other ∈ patches, other.Agree patch := by
  constructor
  · intro h other hmem i a b hother hpatch
    exact h i a b (join_eq_some_of_mem hagree hmem hother) hpatch
  · intro h i a b hjoin hpatch
    obtain ⟨other, hmem, hother⟩ := exists_of_join_eq_some hjoin
    exact h other hmem i a b hother hpatch

/-- One more patch is carried out after the others. -/
theorem apply_join_append_singleton {patch : Patch ι α} (hagree : (join patches).Agree patch)
    (base : ι → α) :
    (join (patches ++ [patch])).apply base = patch.apply ((join patches).apply base) := by
  funext i
  have hjoin : join (patches ++ [patch]) i = (join patches i).or (patch i) := by
    rw [join, List.findSome?_append, List.findSome?_singleton]
    rfl
  unfold apply
  rw [hjoin]
  rcases hold : join patches i with _ | a
  · rfl
  · rcases hnew : patch i with _ | b
    · rfl
    · exact hagree i a b hold hnew

/-- What changed from a state to the same state with patches of it carried out are these patches. -/
theorem diff_apply_join [DecidableEq α] {base : ι → α}
    (hproper : ∀ patch ∈ patches, ∀ i a, patch i = some a → base i ≠ a) :
    diff base ((join patches).apply base) = join patches := by
  funext i
  unfold diff apply
  rcases h : join patches i with _ | a
  · simp
  · obtain ⟨patch, hmem, ha⟩ := exists_of_join_eq_some h
    rw [Option.getD_some, if_neg (hproper patch hmem i a ha)]

end Join

end Patch
