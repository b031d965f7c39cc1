import Mathlib.Data.List.Basic
import Mathlib.Logic.Relation

/-!
# Reachable items

Items are found by the names that touch them, and a found item gives new names. A search that keeps
the names it has and the items it has taken is complete once no name touches an item left.

* `Reach.mem_iff_reached` is the rule for such a search;
* `Reach.Reached.map` carries reachability from one presentation of the items to another.
-/

namespace Jet3.Reach

variable {ν ι κ : Type} {touches : ν → ι → Prop} {gives : ι → List ν} {items : List ι}
  {start : ν}

/-- A name leads to those of an item it touches. -/
def Leads (touches : ν → ι → Prop) (gives : ι → List ν) (items : List ι) (n m : ν) : Prop :=
  ∃ x ∈ items, touches n x ∧ m ∈ gives x

/-- The names the search can come to. -/
def Known (touches : ν → ι → Prop) (gives : ι → List ν) (items : List ι) (start : ν) : ν → Prop :=
  Relation.ReflTransGen (Leads touches gives items) start

/-- An item touched by a name the search can come to. -/
def Reached (touches : ν → ι → Prop) (gives : ι → List ν) (items : List ι) (start : ν) (x : ι) :
    Prop :=
  x ∈ items ∧ ∃ n, Known touches gives items start n ∧ touches n x

/-- What a reached item gives is known. -/
theorem Reached.known {x : ι} {m : ν} (h : Reached touches gives items start x) (hm : m ∈ gives x) :
    Known touches gives items start m := by
  obtain ⟨hx, n, hn, htouches⟩ := h
  exact hn.tail ⟨x, hx, htouches, hm⟩

/-- A search is complete when it took only reached items, has the names they give, and none of its
names touches an item left. -/
theorem mem_iff_reached {taken : List ι} {names : List ν} (hstart : start ∈ names)
    (htaken : ∀ x ∈ taken, Reached touches gives items start x)
    (hgives : ∀ x ∈ taken, ∀ m ∈ gives x, m ∈ names)
    (hleft : ∀ x ∈ items, x ∉ taken → ∀ n ∈ names, ¬touches n x) {x : ι} :
    x ∈ taken ↔ Reached touches gives items start x := by
  refine ⟨htaken x, ?_⟩
  rintro ⟨hx, n, hn, htouches⟩
  have hnames : ∀ n, Known touches gives items start n → n ∈ names := by
    intro n hn
    induction hn with
    | refl => exact hstart
    | tail _ hlead ih =>
      obtain ⟨y, hy, hty, hm⟩ := hlead
      by_cases hmem : y ∈ taken
      · exact hgives y hmem _ hm
      · exact absurd hty (hleft y hy hmem _ ih)
  by_contra hmem
  exact hleft x hx hmem n (hnames n hn) htouches

/-- Reachability is kept by a map of the reached items, up to a relation of the names. -/
theorem Reached.map {touches' : ν → κ → Prop} {gives' : κ → List ν} {items' : List κ}
    (image : ι → κ → Prop) (same : ν → ν → Prop) (hstart : same start start)
    (hitems : ∀ x, Reached touches gives items start x → ∃ y ∈ items', image x y)
    (htouches : ∀ n n' x y, same n n' → Reached touches gives items start x → image x y →
      touches n x → touches' n' y)
    (hgives : ∀ x y m, Reached touches gives items start x → image x y → m ∈ gives x →
      ∃ m' ∈ gives' y, same m m')
    {x : ι} {y : κ} (hy : y ∈ items') (himage : image x y)
    (h : Reached touches gives items start x) : Reached touches' gives' items' start y := by
  have hknown : ∀ n, Known touches gives items start n →
      ∃ n', Known touches' gives' items' start n' ∧ same n n' := by
    intro n hn
    induction hn with
    | refl => exact ⟨start, .refl, hstart⟩
    | @tail n m hn hlead ih =>
      obtain ⟨n', hn', hsame⟩ := ih
      obtain ⟨z, hz, htouch, hm⟩ := hlead
      have hreached : Reached touches gives items start z := ⟨hz, n, hn, htouch⟩
      obtain ⟨w, hw, hzw⟩ := hitems z hreached
      obtain ⟨m', hm', hmm'⟩ := hgives z w _ hreached hzw hm
      exact ⟨m', hn'.tail ⟨w, hw, htouches _ _ _ _ hsame hreached hzw htouch, hm'⟩, hmm'⟩
  obtain ⟨-, n, hn, htouch⟩ := id h
  obtain ⟨n', hn', hsame⟩ := hknown n hn
  exact ⟨hy, n', hn', htouches n n' x y hsame h himage htouch⟩

end Jet3.Reach
