import Jet3.Catalog.NameComparison
import Jet3.Relationship.ConnectedComponent

/-!
# The rows of a relationship

A record joins the first group whose first record it is named like, so what a group holds can depend
on the order of the catalog: names are compared by their keys, except that plain ones are compared
letter by letter, and two plain names of one key may be equal to a third one only. Names that pass
the grammar have no such third one.

* `group_perm_of_class` says that records which are named like each other and like no other record
  make a group in every order of the catalog;
* `Accepted.perm_of_component` says that two accepted groups of one name, in two orders of the
  catalog, have the same records;
* `Accepted.perm` says that a group is accepted in every order of its records.
-/

namespace Jet3.RelationshipCatalog

open Outcome

variable {order : SortOrder} {records records' group group' : List Record}

/-- A record of a group is a record of the catalog. -/
theorem mem_records (hgroup : group ∈ groups records) {record : Record} (hrecord : record ∈ group) :
    record ∈ records :=
  (groups_spec records).1.mem_iff.mp (List.mem_flatten.mpr ⟨group, hgroup, hrecord⟩)

/-- Every record of the catalog is in a group. -/
theorem exists_group_of_mem {record : Record} (hrecord : record ∈ records) :
    ∃ group ∈ groups records, record ∈ group :=
  List.mem_flatten.mp ((groups_spec records).1.mem_iff.mpr hrecord)

/-- The first record of a group names the others. -/
theorem sameName_of_head {first record : Record} (hgroup : group ∈ groups records)
    (hfirst : group.head? = some first) (hrecord : record ∈ group) :
    record = first ∨ first.sameName record = true := by
  obtain ⟨head, rest, rfl, hrest⟩ := (groups_spec records).2.1 group hgroup
  cases hfirst
  rcases List.mem_cons.mp hrecord with rfl | hmem
  · exact .inl rfl
  · exact .inr (hrest record hmem)

/-- The records of the other groups of a list that holds a group. -/
theorem perm_filter_of_split {before after : List (List Record)} {p : Record → Bool}
    (hperm : (before ++ group :: after).flatten.Perm records) (hgroup : ∀ record ∈ group, p record)
    (hbefore : ∀ earlier ∈ before, ∀ record ∈ earlier, ¬p record)
    (hafter : ∀ later ∈ after, ∀ record ∈ later, ¬p record) : group.Perm (records.filter p) := by
  refine List.Perm.trans ?_ (hperm.filter p)
  have hnone : ∀ {others : List (List Record)}, (∀ other ∈ others, ∀ record ∈ other, ¬p record) →
      others.flatten.filter p = [] := by
    intro others hothers
    refine List.filter_eq_nil_iff.mpr fun record hrecord => ?_
    obtain ⟨other, hother, hmem⟩ := List.mem_flatten.mp hrecord
    exact hothers other hother record hmem
  rw [List.flatten_append, List.flatten_cons, List.filter_append, List.filter_append, hnone hbefore,
    hnone hafter, List.filter_eq_self.mpr hgroup, List.nil_append, List.append_nil]

/-- How the groups before and after a group are apart from it. -/
theorem exists_split (hgroup : group ∈ groups records) : ∃ before after,
    (before ++ group :: after).flatten.Perm records ∧
      (∀ earlier ∈ before, ∃ head rest, earlier = head :: rest ∧
        (∀ record ∈ rest, head.sameName record = true) ∧
        ∀ record ∈ group, head.sameName record = false) ∧
      ∀ later ∈ after, ∀ first, group.head? = some first → ∀ record ∈ later,
        first.sameName record = false := by
  obtain ⟨hflatten, hnamed, hapart⟩ := groups_spec records
  generalize groups records = all at *
  obtain ⟨before, after, rfl⟩ := List.append_of_mem hgroup
  rw [Apart, List.pairwise_append, List.pairwise_cons] at hapart
  refine ⟨before, after, hflatten, fun earlier hearlier => ?_, fun later hlater first hfirst => ?_⟩
  · obtain ⟨head, rest, rfl, hrest⟩ := hnamed earlier (List.mem_append_left _ hearlier)
    refine ⟨head, rest, rfl, hrest, fun record hrecord => ?_⟩
    have hhas := hapart.2.2 _ hearlier group List.mem_cons_self record hrecord
    rwa [groupHas, List.head?_cons, Option.any_some] at hhas
  · intro record hrecord
    have hhas := hapart.2.1.1 later hlater record hrecord
    rwa [groupHas, hfirst, Option.any_some] at hhas

/-! ## Classes of names -/

/-- Records that are named like each other, and like no other record of the catalog. -/
structure NameClass (records : List Record) (p : Record → Bool) : Prop where
  same : ∀ a ∈ records, ∀ b ∈ records, p a → p b → a.sameName b = true
  closed : ∀ a ∈ records, ∀ b ∈ records, p a → a.sameName b = true → p b
  closed' : ∀ a ∈ records, ∀ b ∈ records, p a → b.sameName a = true → p b

/-- A class of names stays one when the catalog is permuted. -/
theorem NameClass.perm {p : Record → Bool} (h : NameClass records p)
    (hperm : records.Perm records') :
    NameClass records' p where
  same a ha b hb := h.same a (hperm.mem_iff.mpr ha) b (hperm.mem_iff.mpr hb)
  closed a ha b hb := h.closed a (hperm.mem_iff.mpr ha) b (hperm.mem_iff.mpr hb)
  closed' a ha b hb := h.closed' a (hperm.mem_iff.mpr ha) b (hperm.mem_iff.mpr hb)

/-- A group with a record of a class is the class. -/
theorem group_perm_of_class {p : Record → Bool} (h : NameClass records p)
    (hgroup : group ∈ groups records) {record : Record} (hrecord : record ∈ group) (hp : p record) :
    group.Perm (records.filter p) := by
  obtain ⟨first, rest, rfl, hrest⟩ := (groups_spec records).2.1 group hgroup
  have hin : ∀ {other}, other ∈ first :: rest → other ∈ records := mem_records hgroup
  have hfirst : p first := by
    rcases List.mem_cons.mp hrecord with rfl | hmem
    · exact hp
    · exact h.closed' record (hin hrecord) first (hin List.mem_cons_self) hp (hrest record hmem)
  have hall : ∀ other ∈ first :: rest, p other := by
    intro other hother
    rcases List.mem_cons.mp hother with rfl | hmem
    · exact hfirst
    · exact h.closed first (hin List.mem_cons_self) other (hin hother) hfirst (hrest other hmem)
  obtain ⟨before, after, hperm, hbefore, hafter⟩ := exists_split hgroup
  have hmem : ∀ {g : List Record}, g ∈ before ++ (first :: rest) :: after → ∀ {other}, other ∈ g →
      other ∈ records := fun hg _ hother =>
    hperm.mem_iff.mp (List.mem_flatten.mpr ⟨_, hg, hother⟩)
  refine perm_filter_of_split hperm hall (fun earlier hearlier other hother hclass => ?_)
    (fun later hlater other hother hclass => ?_)
  · -- the head of an earlier group of the class would have taken the records of this one
    have hin' : ∀ {other}, other ∈ earlier → other ∈ records :=
      hmem (List.mem_append_left _ hearlier)
    obtain ⟨head, others, rfl, hothers, hnot⟩ := hbefore earlier hearlier
    have hhead : p head := by
      rcases List.mem_cons.mp hother with rfl | hmem
      · exact hclass
      · exact h.closed' other (hin' hother) head (hin' List.mem_cons_self) hclass
          (hothers other hmem)
    have hsame := h.same head (hin' List.mem_cons_self) first (hin List.mem_cons_self) hhead hfirst
    rw [hnot first List.mem_cons_self] at hsame
    cases hsame
  · have hin' : other ∈ records :=
      hmem (List.mem_append_right _ (List.mem_cons_of_mem _ hlater)) hother
    have hsame := h.same first (hin List.mem_cons_self) other hin' hfirst hclass
    rw [hafter later hlater first rfl other hother] at hsame
    cases hsame

/-! ## Names that pass the grammar -/

/-- A record whose name passes the grammar and has a component. -/
def Record.hasComponent (order : SortOrder) (component : List UInt8) (record : Record) : Bool :=
  (validateCatalogName record.name order).isOk ∧ nameComponent order record.name = component

/-- A record belongs to a component of names where its own name is valid and has it. -/
theorem hasComponent_iff {component : List UInt8} {record : Record} :
    record.hasComponent order component = true ↔
      validateCatalogName record.name order = .ok () ∧
        nameComponent order record.name = component := by
  rw [Record.hasComponent, decide_eq_true_eq]
  refine and_congr_left fun _ => ?_
  rcases validateCatalogName record.name order with error | _ <;> simp [Except.isOk, Except.toBool]

/-- Records of one component have the same name. -/
theorem sameName_of_component {component : List UInt8} {a b : Record} (ha : a.order = order)
    (h : a.hasComponent order component = true) (h' : b.hasComponent order component = true) :
    a.sameName b = true := by
  obtain ⟨hvalid, hcomponent⟩ := hasComponent_iff.mp h
  obtain ⟨hvalid', hcomponent'⟩ := hasComponent_iff.mp h'
  rw [Record.sameName, ha, catalogNamesEqual_iff hvalid hvalid', hcomponent, hcomponent']

/-- The names of an accepted group pass the grammar and have one component. -/
theorem Accepted.hasComponent (h : Accepted group) (hgroup : group ∈ groups records)
    (horder : ∀ record ∈ records, record.order = order) {first record : Record}
    (hfirst : group.head? = some first) (hrecord : record ∈ group) :
    record.hasComponent order (nameComponent order first.name) = true := by
  have hvalid : ∀ {other}, other ∈ group → validateCatalogName other.name order = .ok () := by
    intro other hother
    have hmem := (ordered_ok_iff.mp h.orders).2.1.mem_iff.mpr hother
    rw [← horder other (mem_records hgroup hother)]
    exact (checkNames_ok_iff.mp (h.names other hmem)).2 _ List.mem_cons_self
  have hmem := List.mem_of_head? hfirst
  refine hasComponent_iff.mpr ⟨hvalid hrecord, ?_⟩
  rcases sameName_of_head hgroup hfirst hrecord with rfl | hsame
  · rfl
  · rw [Record.sameName, horder first (mem_records hgroup hmem),
      catalogNamesEqual_iff (hvalid hmem) (hvalid hrecord)] at hsame
    exact hsame.symm

/-- An accepted group is all records of its name that pass the grammar, or the plain ones of them:
an earlier group may have taken the others, through a plain name that is not equal to these. -/
theorem Accepted.group_perm (h : Accepted group) (hgroup : group ∈ groups records)
    (horder : ∀ record ∈ records, record.order = order) {first : Record}
    (hfirst : group.head? = some first) :
    group.Perm (records.filter (Record.hasComponent order (nameComponent order first.name))) ∨
      group.Perm
        ((records.filter (Record.hasComponent order (nameComponent order first.name))).filter
        fun record => plainName order record.name) := by
  generalize hcomponent : nameComponent order first.name = component
  have hall : ∀ record ∈ group, record.hasComponent order component = true := fun record hrecord =>
    hcomponent ▸ h.hasComponent hgroup horder hfirst hrecord
  obtain ⟨before, after, hperm, hbefore, hafter⟩ := exists_split hgroup
  have hmem : ∀ {g : List Record}, g ∈ before ++ group :: after → ∀ {other}, other ∈ g →
      other ∈ records := fun hg _ hother =>
    hperm.mem_iff.mp (List.mem_flatten.mpr ⟨_, hg, hother⟩)
  have hlater : ∀ later ∈ after, ∀ record ∈ later, ¬record.hasComponent order component = true := by
    intro later hlater record hrecord hhas
    have hin := mem_records hgroup (List.mem_of_head? hfirst)
    have hsame := sameName_of_component (horder first hin)
      (hall first (List.mem_of_head? hfirst)) hhas
    rw [hafter later hlater first hfirst record hrecord] at hsame
    cases hsame
  -- what an earlier group took of the name
  have hearlier : ∀ earlier ∈ before, ∀ other ∈ earlier, other.hasComponent order component = true →
      ∀ record ∈ group, plainName order record.name = true ∧ plainName order other.name =
        false := by
    intro earlier hmemEarlier other hother hhas record hrecord
    obtain ⟨head, rest, rfl, hrest, hnot⟩ := hbefore earlier hmemEarlier
    have horderHead : head.order = order :=
      horder head (hmem (List.mem_append_left _ hmemEarlier) List.mem_cons_self)
    have hdiffers := hnot record hrecord
    have hhas' := hall record hrecord
    rw [Record.sameName, horderHead] at hdiffers
    rcases List.mem_cons.mp hother with rfl | hrestMem
    · -- a head that passes the grammar would have taken the group
      have hsame := sameName_of_component horderHead hhas hhas'
      rw [Record.sameName, horderHead, hdiffers] at hsame
      cases hsame
    · have hequal := hrest other hrestMem
      rw [Record.sameName, horderHead] at hequal
      obtain ⟨hvalid, rfl⟩ := hasComponent_iff.mp hhas
      obtain ⟨hvalid', hsame⟩ := hasComponent_iff.mp hhas'
      have hkey := nameKey_of_equal hvalid hequal
      have hkey' := nameKey_of_valid hvalid'
      rw [hsame] at hkey'
      have hplainRecord : plainName order record.name = true := by
        by_contra hplain
        rw [catalogNamesEqual_of_nameKey hkey hkey' fun _ => Bool.not_eq_true _ ▸ hplain]
          at hdiffers
        cases hdiffers
      refine ⟨hplainRecord, ?_⟩
      by_contra hplain
      have hthrough := catalogNamesEqual_trans hequal
        ((catalogNamesEqual_iff hvalid hvalid').mpr hsame.symm) fun _ _ =>
          Bool.not_eq_false _ ▸ hplain
      rw [hthrough] at hdiffers
      cases hdiffers
  by_cases htaken : ∃ earlier ∈ before, ∃ other ∈ earlier, other.hasComponent order component = true
  · obtain ⟨earlier, hmemEarlier, other, hother, hhas⟩ := htaken
    right
    rw [List.filter_filter]
    refine perm_filter_of_split hperm (fun record hrecord => ?_)
      (fun earlier' hmemEarlier' record hrecord hboth => ?_)
      (fun later hmemLater record hrecord hboth => ?_)
    · rw [Bool.and_eq_true]
      exact ⟨(hearlier earlier hmemEarlier other hother hhas record hrecord).1,
        hall record hrecord⟩
    · rw [Bool.and_eq_true] at hboth
      have hplain := (hearlier earlier' hmemEarlier' record hrecord hboth.2 first
        (List.mem_of_head? hfirst)).2
      rw [hboth.1] at hplain
      cases hplain
    · rw [Bool.and_eq_true] at hboth
      exact hlater later hmemLater record hrecord hboth.2
  · left
    refine perm_filter_of_split hperm hall (fun earlier hmemEarlier record hrecord hhas => ?_)
      hlater
    exact htaken ⟨earlier, hmemEarlier, record, hrecord, hhas⟩

/-- The records of an accepted group are as many as each of them says. -/
theorem Accepted.count_eq (h : Accepted group) {record : Record} (hrecord : record ∈ group) :
    record.count.toInt = group.length := by
  obtain ⟨first, -, hcount, hsame⟩ := (ordered_ok_iff.mp h.orders).1
  have hrelationship := hsame record hrecord
  rw [Record.sameRelationship, decide_eq_true_eq] at hrelationship
  rw [hrelationship.2.1, hcount]

/-- Accepted groups of one name, in two orders of the catalog, have the same records. -/
theorem Accepted.perm_of_component (h : Accepted group) (h' : Accepted group')
    (hgroup : group ∈ groups records) (hgroup' : group' ∈ groups records')
    (hperm : records.Perm records') (horder : ∀ record ∈ records, record.order = order)
    {record record' : Record} (hrecord : record ∈ group) (hrecord' : record' ∈ group')
    (hname : nameComponent order record.name = nameComponent order record'.name) :
    group.Perm group' := by
  have horder' : ∀ record ∈ records', record.order = order :=
    fun record hmem => horder record (hperm.mem_iff.mpr hmem)
  have hhead : ∀ {g : List Record} {r : Record}, r ∈ g → ∃ first, g.head? = some first := by
    intro g r hr
    obtain ⟨first, rest, rfl⟩ := List.exists_cons_of_ne_nil (List.ne_nil_of_mem hr)
    exact ⟨first, rfl⟩
  obtain ⟨first, hfirst⟩ := hhead hrecord
  obtain ⟨first', hfirst'⟩ := hhead hrecord'
  have hcomponent : nameComponent order first.name = nameComponent order first'.name := by
    rw [← (hasComponent_iff.mp (h.hasComponent hgroup horder hfirst hrecord)).2, hname,
      (hasComponent_iff.mp (h'.hasComponent hgroup' horder' hfirst' hrecord')).2]
  have hall := h.group_perm hgroup horder hfirst
  have hall' := h'.group_perm hgroup' horder' hfirst'
  rw [hcomponent] at hall
  generalize nameComponent order first'.name = component at hall hall'
  have hnamed : (records.filter (Record.hasComponent order component)).Perm
      (records'.filter (Record.hasComponent order component)) := hperm.filter _
  -- a group of all records of the name and one of the plain ones say the same number
  have hmixed : ∀ {g g' : List Record} {l : List Record}, Accepted g → Accepted g' → g.Perm l →
      g'.Perm (l.filter fun record => plainName order record.name) → g ≠ [] → g' ≠ [] →
      g.Perm g' := by
    intro g g' l hg hg' hpermAll hpermPlain hne hne'
    obtain ⟨r, rest, rfl⟩ := List.exists_cons_of_ne_nil hne'
    have hr : r ∈ g :=
      hpermAll.mem_iff.mpr (List.mem_filter.mp (hpermPlain.mem_iff.mp List.mem_cons_self)).1
    have hlength : g.length = (r :: rest).length := by
      have hcount := hg.count_eq hr
      rw [hg'.count_eq List.mem_cons_self] at hcount
      exact_mod_cast hcount.symm
    rw [hpermAll.length_eq, hpermPlain.length_eq] at hlength
    have hequal := (List.filter_sublist (l := l)
      (p := fun record => plainName order record.name)).eq_of_length hlength.symm
    rw [hequal] at hpermPlain
    exact hpermAll.trans hpermPlain.symm
  have hne : group ≠ [] := List.ne_nil_of_mem hrecord
  have hne' : group' ≠ [] := List.ne_nil_of_mem hrecord'
  rcases hall with hall | hall <;> rcases hall' with hall' | hall'
  · exact hall.trans (hnamed.trans hall'.symm)
  · exact hmixed h h' (hall.trans hnamed) hall' hne hne'
  · exact (hmixed h' h (hall'.trans hnamed.symm) hall hne' hne).symm
  · exact hall.trans ((hnamed.filter _).trans hall'.symm)

/-! ## Rows that agree -/

/-- Two components have the same attributes and count, and valid endpoints of the same names. -/
structure Agrees (order : SortOrder) (a b : Record) : Prop where
  attributes : a.attributes = b.attributes
  count : a.count = b.count
  parent_valid : validateCatalogName a.parent order = .ok ()
  child_valid : validateCatalogName a.child order = .ok ()
  parent : nameComponent order a.parent = nameComponent order b.parent
  child : nameComponent order a.child = nameComponent order b.child

/-- Records of one relationship agree on the endpoints. -/
theorem agrees_of_sameRelationship {first record : Record} (hfirst : first.order = order)
    (hvalid : validateCatalogName first.parent order = .ok () ∧
      validateCatalogName first.child order = .ok ())
    (hvalid' : validateCatalogName record.parent order = .ok () ∧
      validateCatalogName record.child order = .ok ())
    (h : first.sameRelationship record = true) : Agrees order first record := by
  rw [Record.sameRelationship, decide_eq_true_eq, hfirst, catalogNamesEqual_iff hvalid'.1 hvalid.1,
    catalogNamesEqual_iff hvalid'.2 hvalid.2] at h
  obtain ⟨hattributes, hcount, hparent, hchild⟩ := h
  exact ⟨hattributes.symm, hcount.symm, hvalid.1, hvalid.2, hparent.symm, hchild.symm⟩

/-- Records that agree are of one relationship. -/
theorem Agrees.sameRelationship {a b : Record} (h : Agrees order a b) (h' : Agrees order b a)
    (ha : a.order = order) : a.sameRelationship b = true := by
  rw [Record.sameRelationship, decide_eq_true_eq, ha, catalogNamesEqual_iff h'.parent_valid
    h.parent_valid, catalogNamesEqual_iff h'.child_valid h.child_valid]
  exact ⟨h'.attributes, h'.count, h'.parent, h'.child⟩

/-- A name touches two agreeing components alike. -/
theorem Agrees.touchedBy {a b : Record} (h : Agrees order a b) (h' : Agrees order b a)
    (ha : a.order = order) (hb : b.order = order) {n n' : List UInt8}
    (hn : validateCatalogName n order = .ok ()) (hn' : validateCatalogName n' order = .ok ())
    (hsame : nameComponent order n = nameComponent order n') (htouched : a.touchedBy n = true) :
    b.touchedBy n' = true := by
  rw [Record.touchedBy, ha, Bool.or_eq_true, catalogNamesEqual_iff hn h.parent_valid,
    catalogNamesEqual_iff hn h.child_valid] at htouched
  rw [Record.touchedBy, hb, Bool.or_eq_true, catalogNamesEqual_iff hn' h'.parent_valid,
    catalogNamesEqual_iff hn' h'.child_valid, ← hsame, ← h.parent, ← h.child]
  exact htouched

/-- The rows of a group agree. -/
def Uniform (order : SortOrder) (group : List Record) : Prop :=
  ∀ a ∈ group, ∀ b ∈ group, Agrees order a b

/-- An accepted group is uniform. -/
theorem Accepted.uniform (h : Accepted group) (horder : ∀ record ∈ group, record.order = order) :
    Uniform order group := by
  obtain ⟨⟨first, hfirst, -, hsame⟩, hperm, -⟩ := ordered_ok_iff.mp h.orders
  -- the names of an accepted group were checked, so those that compare equal have one key
  have hvalid : ∀ record ∈ group, validateCatalogName record.parent order = .ok () ∧
      validateCatalogName record.child order = .ok () := by
    intro record hrecord
    have hnames := (checkNames_ok_iff.mp (h.names record (hperm.mem_iff.mpr hrecord))).2
    rw [horder record hrecord] at hnames
    exact ⟨hnames _ (by simp [Record.names]), hnames _ (by simp [Record.names])⟩
  have hmem : first ∈ group := List.mem_of_head? hfirst
  have hagrees : ∀ record ∈ group, Agrees order first record := fun record hrecord =>
    agrees_of_sameRelationship (horder first hmem) (hvalid first hmem) (hvalid record hrecord)
      (hsame record hrecord)
  intro a ha b hb
  have hleft := hagrees a ha
  have hright := hagrees b hb
  exact ⟨hleft.attributes.symm.trans hright.attributes, hleft.count.symm.trans hright.count,
    (hvalid a ha).1, (hvalid a ha).2, hleft.parent.symm.trans hright.parent,
    hleft.child.symm.trans hright.child⟩

/-- The components of a group are ordered alike in every order of the group. -/
theorem ordered_of_perm (hperm : group.Perm group')
    (horder : ∀ record ∈ group, record.order = order)
    (huniform : Uniform order group) {components : List Record}
    (h : ordered group = .ok components) : ordered group' = .ok components := by
  obtain ⟨⟨first, hfirst, hcount, -⟩, hcomponents, hordinals⟩ := ordered_ok_iff.mp h
  have hmem : first ∈ group := List.mem_of_head? hfirst
  obtain ⟨first', rest, rfl⟩ := List.exists_cons_of_ne_nil
    (List.ne_nil_of_mem (hperm.mem_iff.mp hmem))
  have hmem' : first' ∈ group := hperm.mem_iff.mpr List.mem_cons_self
  refine ordered_ok_iff.mpr ⟨⟨first', rfl, ?_, fun record hrecord => ?_⟩, hcomponents.trans hperm,
    ?_⟩
  · rw [(huniform first' hmem' first hmem).count, hcount, hperm.length_eq]
  · have hin := hperm.mem_iff.mpr hrecord
    exact (huniform first' hmem' record hin).sameRelationship (huniform record hin first' hmem')
      (horder first' hmem')
  · rw [hordinals, hperm.length_eq]

/-- Uniform records are enforced in any order. -/
theorem enforced_of_perm (hperm : group.Perm group') (huniform : Uniform order group) :
    enforced group' = enforced group := by
  rcases group with _ | ⟨first, rest⟩
  · rw [hperm.symm.eq_nil]
  · obtain ⟨first', rest', rfl⟩ := List.exists_cons_of_ne_nil
      (List.ne_nil_of_mem (hperm.mem_iff.mp List.mem_cons_self))
    have hagrees := huniform first' (hperm.mem_iff.mpr List.mem_cons_self) first List.mem_cons_self
    rw [enforced, enforced, List.head?_cons, List.head?_cons, Option.any_some, Option.any_some,
      hagrees.attributes]

/-- A group is accepted in every order of its records. -/
theorem Accepted.perm (h : Accepted group) (hperm : group.Perm group')
    (horder : ∀ record ∈ group, record.order = order) : Accepted group' := by
  have huniform := h.uniform horder
  obtain ⟨first, hfirst, hinterpreted⟩ := h.interpreted
  have hmem : first ∈ group := List.mem_of_head? hfirst
  have hordered := ordered_of_perm hperm horder huniform h.orders
  have hequal := orderedOf_eq hordered
  refine ⟨?_, by rw [hequal]; exact hordered, by rw [hequal]; exact h.names⟩
  obtain ⟨first', rest, rfl⟩ := List.exists_cons_of_ne_nil
    (List.ne_nil_of_mem (hperm.mem_iff.mp hmem))
  have hagrees := huniform first' (hperm.mem_iff.mpr List.mem_cons_self) first hmem
  refine ⟨first', rfl, ?_⟩
  rw [Record.interpreted, hagrees.attributes, hagrees.count]
  exact hinterpreted

end Jet3.RelationshipCatalog
