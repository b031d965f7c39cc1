import Jet3.Library.Patch
import Jet3.Write.Overlay

/-!
# Merging page edits

Several edits of one page are merged into one change. Each edit of a page is a patch of the bytes it
changes, and a plan holds for each page the join of the patches asked for.

* `mergePage_ok_iff` says what merging one edit does and when it fails;
* `Merged` says what a plan holds after a sequence of edits;
* `applyAll_ok_iff` and `applyAll_perm` say that only edits that disagree on a byte fail, in any
  order.
-/

namespace Jet3

open Outcome

/-! ## One page -/

/-- The bytes an edit of a page changes. -/
def pagePatch (before after : Page) : Patch (Fin pageBytes) UInt8 :=
  Patch.diff before after

/-- The page with the bytes of a patch. -/
def patchPage (page : Page) (patch : Patch (Fin pageBytes) UInt8) : Page :=
  patch.apply page

theorem Block.get_fin {n : ℕ} (b : Block n) (i : Fin n) : b.get i = b i := by
  simp [Block.get]

namespace PageEdits

/-- The image in which the first `k` bytes of an edit are merged. -/
structure MergedUpTo (before after existing : Page) (k : ℕ) (image : Page) : Prop where
  merged : ∀ i : Fin pageBytes, i.val < k → image i = (pagePatch before after).apply existing i
  rest : ∀ i : Fin pageBytes, k ≤ i.val → image i = existing i
  agree : ∀ i : Fin pageBytes, i.val < k → before i ≠ after i → before i ≠ existing i →
    existing i = after i

/-- What one step of the merge does. -/
theorem mergeByte_ok_iff {before after existing image image' : Page} {k : ℕ} (hk : k < pageBytes)
    (h : MergedUpTo before after existing k image) :
    mergeByte before after image k = .ok image' ↔
      image' = (if before ⟨k, hk⟩ = after ⟨k, hk⟩ then image else image.write k [after ⟨k, hk⟩]) ∧
        (before ⟨k, hk⟩ ≠ after ⟨k, hk⟩ → before ⟨k, hk⟩ ≠ existing ⟨k, hk⟩ →
          existing ⟨k, hk⟩ = after ⟨k, hk⟩) := by
  have hget : ∀ page : Page, page.get k = page ⟨k, hk⟩ := fun page => Block.get_fin page ⟨k, hk⟩
  have hrest := h.rest ⟨k, hk⟩ (le_refl _)
  unfold mergeByte
  simp only [hget, hrest]
  by_cases hsame : before ⟨k, hk⟩ = after ⟨k, hk⟩
  · rw [if_neg (not_not.mpr hsame), if_pos hsame, pure_ok_iff]
    exact ⟨fun heq => ⟨heq.symm, fun hne => absurd hsame hne⟩, fun heq => heq.1.symm⟩
  · rw [if_pos hsame, if_neg hsame]
    simp only [bind_ok_iff, exists_unit, refuseIf_ok_iff, WriteError.ofError_ok_iff, writeAt_ok_iff,
      List.length_singleton]
    constructor
    · rintro ⟨hagree, -, rfl⟩
      refine ⟨rfl, fun _ hother => ?_⟩
      by_contra hne
      exact hagree ⟨Ne.symm hother, hne⟩
    · rintro ⟨rfl, hagree⟩
      exact ⟨fun hboth => hboth.2 (hagree hsame (Ne.symm hboth.1)), hk, rfl⟩

/-- One more byte is merged where the two changes do not differ. -/
theorem MergedUpTo.step {before after existing image : Page} {k : ℕ} (hk : k < pageBytes)
    (h : MergedUpTo before after existing k image)
    (hagree : before ⟨k, hk⟩ ≠ after ⟨k, hk⟩ → before ⟨k, hk⟩ ≠ existing ⟨k, hk⟩ →
      existing ⟨k, hk⟩ = after ⟨k, hk⟩) :
    MergedUpTo before after existing (k + 1)
      (if before ⟨k, hk⟩ = after ⟨k, hk⟩ then image else image.write k [after ⟨k, hk⟩]) := by
  have hwrite : ∀ i : Fin pageBytes, (image.write k [after ⟨k, hk⟩]) i =
      if i.val = k then after ⟨k, hk⟩ else image i := by
    intro i
    unfold Block.write
    by_cases hi : i.val = k
    · rw [if_pos hi, if_pos ⟨hi.ge, by simp [hi]⟩, hi, Nat.sub_self]
      rfl
    · rw [if_neg hi, if_neg fun hboth => hi (by simp at hboth; omega)]
  -- the merged byte is the new one where the change differs from its source
  have hmerged : ∀ i : Fin pageBytes, i.val = k → (pagePatch before after).apply existing i =
      if before ⟨k, hk⟩ = after ⟨k, hk⟩ then existing i else after ⟨k, hk⟩ := by
    rintro ⟨i, hi⟩ rfl
    unfold pagePatch Patch.apply Patch.diff
    split <;> rfl
  refine ⟨fun i hi => ?_, fun i hi => ?_, fun i hi => ?_⟩
  · rcases Nat.lt_or_ge i.val k with hlt | hge
    · rw [← h.merged i hlt]
      split
      · rfl
      · rw [hwrite, if_neg (Nat.ne_of_lt hlt)]
    · have heq : i.val = k := Nat.le_antisymm (Nat.lt_succ_iff.mp hi) hge
      rw [hmerged i heq]
      split
      · exact h.rest i hge
      · rw [hwrite, if_pos heq]
  · rw [← h.rest i (Nat.le_of_succ_le hi)]
    split
    · rfl
    · rw [hwrite, if_neg (Nat.ne_of_gt hi)]
  · rcases Nat.lt_or_ge i.val k with hlt | hge
    · exact h.agree i hlt
    · obtain ⟨n, hn⟩ := i
      obtain rfl : n = k := Nat.le_antisymm (Nat.lt_succ_iff.mp hi) hge
      exact hagree

/-- An edit is merged exactly when it agrees with what the change of the page holds already, and
then its bytes are carried out as well. -/
theorem mergePage_ok_iff {before after existing merged : Page} :
    mergePage before after existing = .ok merged ↔
      (pagePatch before existing).Agree (pagePatch before after) ∧
        merged = patchPage existing (pagePatch before after) := by
  -- the two changes agree where both differ from the source
  have hagree_iff : (pagePatch before existing).Agree (pagePatch before after) ↔
      ∀ i : Fin pageBytes, before i ≠ after i → before i ≠ existing i → existing i = after i := by
    constructor
    · intro h i hafter hexisting
      exact h i _ _ (Patch.diff_eq_some_iff.mpr ⟨hexisting, rfl⟩)
        (Patch.diff_eq_some_iff.mpr ⟨hafter, rfl⟩)
    · intro h i a b ha hb
      obtain ⟨hexisting, rfl⟩ := Patch.diff_eq_some_iff.mp ha
      obtain ⟨hafter, rfl⟩ := Patch.diff_eq_some_iff.mp hb
      exact h i hafter hexisting
  have hstart : MergedUpTo before after existing 0 existing :=
    ⟨fun i hi => absurd hi (Nat.not_lt_zero _), fun _ _ => rfl,
      fun i hi => absurd hi (Nat.not_lt_zero _)⟩
  have hend : ∀ {image}, MergedUpTo before after existing pageBytes image →
      image = patchPage existing (pagePatch before after) :=
    fun h => funext fun i => h.merged i i.isLt
  rw [hagree_iff]
  constructor
  · intro h
    have hall := foldlM_ok_induction
      (fun done image => MergedUpTo before after existing done.length image) hstart (by
        intro done k rest image image' hsplit himage hstep
        obtain ⟨rfl, hk⟩ := Lookup.range_split hsplit
        obtain ⟨rfl, hagree⟩ := (mergeByte_ok_iff hk himage).mp hstep
        rw [List.length_append, List.length_singleton]
        exact himage.step hk hagree) h
    rw [List.length_range] at hall
    exact ⟨fun i => hall.agree i i.isLt, hend hall⟩
  · rintro ⟨hagree, rfl⟩
    obtain ⟨image, himage, hall⟩ := exists_foldlM_ok (f := mergeByte before after)
      (l := List.range pageBytes) (s := existing)
      (fun done image => MergedUpTo before after existing done.length image) hstart (by
        intro done k rest image hsplit himage
        obtain ⟨rfl, hk⟩ := Lookup.range_split hsplit
        refine ⟨_, (mergeByte_ok_iff hk himage).mpr ⟨rfl, hagree ⟨_, hk⟩⟩, ?_⟩
        rw [List.length_append, List.length_singleton]
        exact himage.step hk (hagree ⟨_, hk⟩))
    rw [List.length_range] at hall
    rw [← hend hall]
    exact himage

/-! ## Sequences of edits -/

/-- One request to change an existing page. -/
inductive Call where
  | replace (change : PageChange)
  | setImage (page : PageNumber) (image : Page)

namespace Call

/-- The page a call is about. -/
def page : Call → PageNumber
  | replace change => change.page
  | setImage page _ => page

/-- The image a call wants the page to have. -/
def image : Call → Page
  | replace change => change.after
  | setImage _ image => image

/-- Carries out the request on a plan made against `file`. -/
def apply (file : PageFile) (edits : PageEdits) : Call → Except WriteError PageEdits
  | replace change => edits.replace change
  | setImage page image => edits.setImage file page image

/-- The request is about an existing page and takes it to have the bytes `source` gives it. -/
def Names (source : PageNumber → Page) (file : PageFile) (firstAppend : ℕ) : Call → Prop
  | replace change => change.page < firstAppend ∧ change.before = source change.page
  | setImage page _ => page < firstAppend ∧ file[page]? = some (source page)

/-- The bytes the request changes. -/
def patch (source : PageNumber → Page) (call : Call) : Patch (Fin pageBytes) UInt8 :=
  pagePatch (source call.page) call.image

/-- Two requests change the same byte of a page to different values. -/
def Conflict (source : PageNumber → Page) (first second : Call) : Prop :=
  first.page = second.page ∧ ∃ offset : Fin pageBytes,
    source first.page offset ≠ first.image offset ∧
    source first.page offset ≠ second.image offset ∧ first.image offset ≠ second.image offset

/-- Conflicts are symmetric. -/
theorem Conflict.symm {source : PageNumber → Page} {first second : Call}
    (h : Conflict source first second) : Conflict source second first := by
  obtain ⟨hpage, offset, hfirst, hsecond, hne⟩ := h
  exact ⟨hpage.symm, offset, hpage ▸ hsecond, hpage ▸ hfirst, Ne.symm hne⟩

/-- Requests of one page that do not conflict are patches that agree. -/
theorem agree_iff {source : PageNumber → Page} {first second : Call}
    (hpage : first.page = second.page) :
    (first.patch source).Agree (second.patch source) ↔ ¬Conflict source first second := by
  constructor
  · rintro h ⟨-, offset, hfirst, hsecond, hne⟩
    refine hne (h offset _ _ (Patch.diff_eq_some_iff.mpr ⟨hfirst, rfl⟩)
      (Patch.diff_eq_some_iff.mpr ⟨?_, rfl⟩))
    rw [← hpage]
    exact hsecond
  · intro h offset a b ha hb
    obtain ⟨hfirst, rfl⟩ := Patch.diff_eq_some_iff.mp ha
    obtain ⟨hsecond, rfl⟩ := Patch.diff_eq_some_iff.mp hb
    rw [← hpage] at hsecond
    by_contra hne
    exact h ⟨hpage, offset, hfirst, hsecond, hne⟩

/-- Both kinds of requests come down to replacing a page. -/
theorem apply_eq_replace {source : PageNumber → Page} {file : PageFile} {edits : PageEdits}
    {call : Call} (h : call.Names source file edits.firstAppend) :
    call.apply file edits =
      edits.replace { page := call.page, before := source call.page, after := call.image } := by
  cases call with
  | replace change =>
    obtain ⟨-, hbefore⟩ := h
    show edits.replace change = _
    rw [page, image, ← hbefore]
  | setImage page image =>
    obtain ⟨hpage, hsource⟩ := h
    have hread : WriteError.ofError (file.readRawPage page) = .ok (source page) :=
      WriteError.ofError_ok_iff.mpr (PageFile.readRawPage_ok_iff.mpr hsource)
    show edits.setImage file page image = _
    rw [PageEdits.setImage, if_neg (Nat.not_le.mpr hpage), hread]
    rfl

end Call

/-- Carries out requests one after the other. -/
def applyAll (file : PageFile) (edits : PageEdits) (calls : List Call) :
    Except WriteError PageEdits :=
  calls.foldlM (fun edits call => call.apply file edits) edits

section Sequence

variable (source : PageNumber → Page)

/-- The patches of the requests of one page. -/
def patchesOf (calls : List Call) (page : PageNumber) : List (Patch (Fin pageBytes) UInt8) :=
  (calls.filter fun call => call.page = page).map (Call.patch source)

/-- What a plan holds after the requests `calls`: for each page that was asked for, its bytes with
those of all requests. -/
def Merged (calls : List Call) (edits : PageEdits) : Prop :=
  ∀ page, edits.changeOf page =
    if calls.any (fun call => call.page = page) then
      some { page, before := source page
             after := patchPage (source page) (Patch.join (patchesOf source calls page)) }
    else none

variable {source} {file : PageFile} {edits edits' : PageEdits} {calls : List Call}

/-- A plan of no calls changes nothing. -/
theorem merged_new (pageCount : ℕ) : Merged source [] (new pageCount) :=
  fun _ => rfl

/-- One more call adds its patch to its page. -/
theorem patchesOf_append_singleton (call : Call) (page : PageNumber) :
    patchesOf source (calls ++ [call]) page =
      patchesOf source calls page ++ if call.page = page then [call.patch source] else [] := by
  rw [patchesOf, List.filter_append, List.map_append, ← patchesOf]
  by_cases h : call.page = page <;> simp [h]

/-- Requests without a conflict are patches that agree on every page. -/
theorem pairwise_patchesOf (h : calls.Pairwise fun first second =>
    ¬Call.Conflict source first second)
    (page : PageNumber) : (patchesOf source calls page).Pairwise Patch.Agree := by
  rw [patchesOf, List.pairwise_map, List.pairwise_filter]
  refine h.imp fun {first second} hnone hfirst hsecond => ?_
  rw [decide_eq_true_eq] at hfirst hsecond
  exact (Call.agree_iff (hfirst.trans hsecond.symm)).mpr hnone

/-- The recorded change of a page whose after image is set. -/
theorem changeOf_setAfter {page : PageNumber} {after : Page} (other : PageNumber) :
    (edits.setAfter page after).changeOf other =
      if other = page then (edits.changeOf page).map fun change => { change with after }
      else edits.changeOf other := by
  unfold changeOf setAfter
  dsimp only
  induction edits.changes with
  | nil => simp
  | cons first changes ih =>
    by_cases hfirst : first.page = page
    · have hidx : (first :: changes).findIdx (fun change => decide (change.page = page)) = 0 := by
        rw [List.findIdx_cons, decide_eq_true hfirst]
        rfl
      rw [hidx, List.modify_zero_cons, List.find?_cons, List.find?_cons, List.find?_cons,
        decide_eq_true hfirst]
      by_cases hother : other = page
      · rw [if_pos hother, hother, decide_eq_true hfirst]
        rfl
      · rw [if_neg hother, decide_eq_false (hfirst ▸ Ne.symm hother)]
    · have hidx : (first :: changes).findIdx (fun change => decide (change.page = page)) =
          changes.findIdx (fun change => decide (change.page = page)) + 1 := by
        rw [List.findIdx_cons, decide_eq_false hfirst]
        rfl
      rw [hidx, List.modify_succ_cons, List.find?_cons, List.find?_cons, List.find?_cons,
        decide_eq_false hfirst]
      by_cases hother : first.page = other
      · rw [decide_eq_true hother, if_neg (hother ▸ hfirst)]
      · rw [decide_eq_false hother]
        exact ih

/-- A request agrees with all earlier requests of its page exactly when it conflicts with none. -/
theorem agree_join_patchesOf_iff
    (hagree : calls.Pairwise fun first second => ¬Call.Conflict source first second) (call : Call) :
    (Patch.join (patchesOf source calls call.page)).Agree (call.patch source) ↔
      ∀ earlier ∈ calls, ¬Call.Conflict source earlier call := by
  rw [Patch.agree_join_iff (pairwise_patchesOf hagree call.page)]
  constructor
  · intro h earlier hearlier hconflict
    have hmem : earlier.patch source ∈ patchesOf source calls call.page :=
      List.mem_map_of_mem (List.mem_filter.mpr ⟨hearlier, decide_eq_true hconflict.1⟩)
    exact (Call.agree_iff hconflict.1).mp (h _ hmem) hconflict
  · intro h patch hpatch
    obtain ⟨earlier, hearlier, rfl⟩ := List.mem_map.mp hpatch
    obtain ⟨hmem, hpage⟩ := List.mem_filter.mp hearlier
    exact (Call.agree_iff (of_decide_eq_true hpage)).mpr (h earlier hmem)

/-- What the requests of a page changed are their patches. -/
theorem pagePatch_apply_join (page : PageNumber) :
    pagePatch (source page) (patchPage (source page) (Patch.join (patchesOf source calls page))) =
      Patch.join (patchesOf source calls page) := by
  refine Patch.diff_apply_join fun patch hpatch i a ha => ?_
  obtain ⟨call, hcall, rfl⟩ := List.mem_map.mp hpatch
  have hpage : call.page = page := of_decide_eq_true (List.mem_filter.mp hcall).2
  obtain ⟨hne, rfl⟩ := Patch.diff_eq_some_iff.mp ha
  rw [← hpage]
  exact hne

/-- One more request succeeds exactly when it conflicts with none before. -/
theorem Merged.apply_ok_iff (h : Merged source calls edits)
    (hagree : calls.Pairwise fun first second => ¬Call.Conflict source first second) {call : Call}
    (hnames : call.Names source file edits.firstAppend) :
    (∃ edits', call.apply file edits = .ok edits') ↔
      ∀ earlier ∈ calls, ¬Call.Conflict source earlier call := by
  have hlt : call.page < edits.firstAppend := by
    cases call with
    | replace change => exact hnames.1
    | setImage page image => exact hnames.1
  rw [Call.apply_eq_replace hnames, PageEdits.replace, h call.page,
    ← agree_join_patchesOf_iff hagree call]
  by_cases hany : calls.any (fun call' => call'.page = call.page) = true
  · rw [if_pos hany]
    simp only [bind_ok_iff, exists_unit, refuseIf_ok_iff, ne_eq, not_true_eq_false,
      not_false_eq_true, true_and, pure_ok_iff, mergePage_ok_iff, pagePatch_apply_join]
    constructor
    · rintro ⟨_, _, ⟨hok, _⟩, _⟩
      exact hok
    · intro hok
      exact ⟨_, _, ⟨hok, rfl⟩, rfl⟩
  · rw [if_neg hany]
    have hnone : patchesOf source calls call.page = [] := by
      rw [patchesOf, List.filter_eq_nil_iff.mpr, List.map_nil]
      intro earlier hearlier hpage
      exact hany (List.any_eq_true.mpr ⟨earlier, hearlier, hpage⟩)
    simp only [bind_ok_iff, exists_unit, refuseIf_ok_iff, pure_ok_iff]
    refine ⟨fun _ => ?_, fun _ => ⟨_, Nat.not_le.mpr hlt, rfl⟩⟩
    rw [hnone]
    intro i a b ha
    cases ha

/-- After one more request the plan holds its bytes as well. -/
theorem Merged.step (h : Merged source calls edits)
    (hagree : calls.Pairwise fun first second => ¬Call.Conflict source first second) {call : Call}
    (hnames : call.Names source file edits.firstAppend) (hok : call.apply file edits = .ok edits') :
    Merged source (calls ++ [call]) edits' ∧ edits'.firstAppend = edits.firstAppend := by
  have hjoin := (agree_join_patchesOf_iff hagree call).mpr
    ((h.apply_ok_iff hagree hnames).mp ⟨edits', hok⟩)
  -- The join of the patches of the page with the new one is carried out after the old ones.
  have happly : patchPage (source call.page)
      (Patch.join (patchesOf source calls call.page ++ [call.patch source])) =
      patchPage (patchPage (source call.page) (Patch.join (patchesOf source calls call.page)))
        (call.patch source) := Patch.apply_join_append_singleton hjoin (source call.page)
  rw [Call.apply_eq_replace hnames, PageEdits.replace, h call.page] at hok
  have hpatches := @patchesOf_append_singleton source calls call
  by_cases hany : calls.any (fun call' => call'.page = call.page) = true
  · rw [if_pos hany] at hok
    simp only [bind_ok_iff, exists_unit, refuseIf_ok_iff, pure_ok_iff, mergePage_ok_iff] at hok
    obtain ⟨-, after, ⟨-, rfl⟩, rfl⟩ := hok
    refine ⟨fun page => ?_, rfl⟩
    rw [changeOf_setAfter, List.any_append, hpatches]
    by_cases hpage : page = call.page
    · rw [if_pos hpage, hpage, h call.page, if_pos hany, hany, if_pos rfl, happly]
      rfl
    · have hne : ¬call.page = page := Ne.symm hpage
      rw [if_neg hpage, if_neg hne, h page]
      simp [hne]
  · rw [if_neg hany] at hok
    simp only [bind_ok_iff, exists_unit, refuseIf_ok_iff, pure_ok_iff] at hok
    obtain ⟨-, rfl⟩ := hok
    have hnone : edits.changeOf call.page = none := by rw [h call.page, if_neg hany]
    have hempty : patchesOf source calls call.page = [] := by
      rw [patchesOf, List.filter_eq_nil_iff.mpr, List.map_nil]
      intro earlier hearlier hpage
      exact hany (List.any_eq_true.mpr ⟨earlier, hearlier, hpage⟩)
    refine ⟨fun page => ?_, rfl⟩
    rw [changeOf_addChange hnone, List.any_append, hpatches]
    by_cases hpage : page = call.page
    · have himage : patchPage (source call.page) (call.patch source) = call.image :=
        Patch.apply_diff (source call.page) call.image
      have hbase : patchPage (source call.page) (Patch.join []) = source call.page := rfl
      rw [if_pos hpage, hpage, if_pos rfl, happly, hempty, hbase, himage]
      simp
    · have hne : ¬call.page = page := Ne.symm hpage
      rw [if_neg hpage, if_neg hne, h page]
      simp [hne]

/-- After a successful sequence of requests no two of them conflict, and the plan holds the bytes of
all of them. -/
theorem applyAll_merged {pageCount : ℕ} (hnames : ∀ call ∈ calls, call.Names source file pageCount)
    (hok : applyAll file (new pageCount) calls = .ok edits) :
    (calls.Pairwise fun first second => ¬Call.Conflict source first second) ∧
      Merged source calls edits ∧ edits.firstAppend = pageCount := by
  refine foldlM_ok_induction (fun done edits =>
    (done.Pairwise fun first second => ¬Call.Conflict source first second) ∧
      Merged source done edits ∧ edits.firstAppend = pageCount)
    ⟨.nil, merged_new pageCount, rfl⟩ ?_ hok
  rintro done call rest edits edits' hsplit ⟨hpairwise, hmerged, hfirst⟩ hstep
  have hcall : call.Names source file edits.firstAppend :=
    hfirst ▸ hnames call (by rw [hsplit]; simp)
  have hfree := (hmerged.apply_ok_iff hpairwise hcall).mp ⟨edits', hstep⟩
  obtain ⟨hmerged', hfirst'⟩ := hmerged.step hpairwise hcall hstep
  refine ⟨?_, hmerged', hfirst'.trans hfirst⟩
  rw [List.pairwise_append]
  refine ⟨hpairwise, List.pairwise_singleton _ _, fun earlier hearlier later hlater => ?_⟩
  rw [List.mem_singleton.mp hlater]
  exact hfree earlier hearlier

/-- A sequence of requests succeeds exactly when no two of them conflict. -/
theorem applyAll_ok_iff {pageCount : ℕ}
    (hnames : ∀ call ∈ calls, call.Names source file pageCount) :
    (∃ edits, applyAll file (new pageCount) calls = .ok edits) ↔
      calls.Pairwise fun first second => ¬Call.Conflict source first second := by
  constructor
  · rintro ⟨edits, hok⟩
    exact (applyAll_merged hnames hok).1
  · intro hpairwise
    obtain ⟨edits, hok, -⟩ := exists_foldlM_ok (f := fun edits call => Call.apply file edits call)
      (l := calls) (s := new pageCount) (fun done edits =>
        Merged source done edits ∧ edits.firstAppend = pageCount) ⟨merged_new pageCount, rfl⟩ (by
        rintro done call rest edits hsplit ⟨hmerged, hfirst⟩
        have hcall : call.Names source file edits.firstAppend :=
          hfirst ▸ hnames call (by rw [hsplit]; simp)
        rw [hsplit, List.pairwise_append] at hpairwise
        obtain ⟨edits', hstep⟩ := (hmerged.apply_ok_iff hpairwise.1 hcall).mpr
          fun earlier hearlier => hpairwise.2.2 earlier hearlier call List.mem_cons_self
        obtain ⟨hmerged', hfirst'⟩ := hmerged.step hpairwise.1 hcall hstep
        exact ⟨edits', hstep, hmerged', hfirst'.trans hfirst⟩)
    exact ⟨edits, hok⟩

/-- Where no request conflicts with an earlier one, none conflicts with any other. -/
theorem pairwise_iff_not_exists :
    (calls.Pairwise fun first second => ¬Call.Conflict source first second) ↔
      ¬∃ first ∈ calls, ∃ second ∈ calls, Call.Conflict source first second := by
  constructor
  · rintro h ⟨first, hfirst, second, hsecond, hconflict⟩
    have hself : ∀ call ∈ calls, ¬Call.Conflict source call call := by
      rintro call - ⟨-, offset, -, -, hne⟩
      exact hne rfl
    exact List.Pairwise.forall_of_forall_of_flip hself h
      (h.imp fun hnone hother => hnone hother.symm) hfirst hsecond hconflict
  · intro h
    refine List.pairwise_of_forall_mem_list fun first hfirst second hsecond hconflict => ?_
    exact h ⟨first, hfirst, second, hsecond, hconflict⟩

/-- The image of a page has the bytes of every request that changes them and its own elsewhere. -/
theorem Merged.current (h : Merged source calls edits)
    (hpairwise : calls.Pairwise fun first second => ¬Call.Conflict source first second)
    (page : PageNumber) (offset : Fin pageBytes) :
    (∀ call ∈ calls, call.page = page → source page offset ≠ call.image offset →
      edits.current (source page) page offset = call.image offset) ∧
    ((∀ call ∈ calls, call.page = page → source page offset = call.image offset) →
      edits.current (source page) page offset = source page offset) := by
  -- a page that no call names has no patch
  have hcurrent : edits.current (source page) page =
      patchPage (source page) (Patch.join (patchesOf source calls page)) := by
    rw [PageEdits.current, h page]
    by_cases hany : calls.any (fun call => call.page = page) = true
    · rw [if_pos hany]
    · rw [if_neg hany]
      have hnone : patchesOf source calls page = [] := by
        rw [patchesOf, List.filter_eq_nil_iff.mpr, List.map_nil]
        intro call hcall hpage
        exact hany (List.any_eq_true.mpr ⟨call, hcall, hpage⟩)
      rw [hnone]
      rfl
  rw [hcurrent]
  constructor
  · rintro call hcall rfl hne
    have hmem : call.patch source ∈ patchesOf source calls call.page :=
      List.mem_map_of_mem (List.mem_filter.mpr ⟨hcall, decide_eq_true rfl⟩)
    have hjoin := Patch.join_eq_some_of_mem (pairwise_patchesOf hpairwise call.page) hmem
      (Patch.diff_eq_some_iff.mpr ⟨hne, rfl⟩)
    exact congrArg (Option.getD · (source call.page offset)) hjoin
  · intro hsame
    have hjoin : Patch.join (patchesOf source calls page) offset = none := by
      rw [Patch.join_eq_none_iff]
      intro patch hpatch
      obtain ⟨call, hcall, rfl⟩ := List.mem_map.mp hpatch
      obtain ⟨hmem, hpage⟩ := List.mem_filter.mp hcall
      have hpage' : call.page = page := of_decide_eq_true hpage
      refine if_pos ?_
      rw [hpage']
      exact hsame call hmem hpage'
    exact congrArg (Option.getD · (source page offset)) hjoin

/-- Merging page edits loses and invents nothing. The requests name one before image for each page;
then they fail only where two of them change a byte to different values, the plan ends with the
bytes of every request, and neither depends on the order of the requests. -/
theorem applyAll_merges (source : PageNumber → Page) (file : PageFile) (pageCount : ℕ)
    (calls : List Call) (hnames : ∀ call ∈ calls, call.Names source file pageCount) :
    ((∃ edits, applyAll file (new pageCount) calls = .ok edits) ↔
      ¬∃ first ∈ calls, ∃ second ∈ calls, Call.Conflict source first second) ∧
    (∀ done call rest, calls = done ++ call :: rest →
      ∀ edits, applyAll file (new pageCount) done = .ok edits →
        ((∃ e, call.apply file edits = .error e) ↔
          ∃ earlier ∈ done, Call.Conflict source earlier call)) ∧
    (∀ edits, applyAll file (new pageCount) calls = .ok edits →
      ∀ page, (edits.changeOf page).isSome = calls.any (fun call => call.page = page) ∧
        ∀ offset : Fin pageBytes,
          (∀ call ∈ calls, call.page = page → source page offset ≠ call.image offset →
            edits.current (source page) page offset = call.image offset) ∧
          ((∀ call ∈ calls, call.page = page → source page offset = call.image offset) →
            edits.current (source page) page offset = source page offset)) ∧
    (∀ calls', calls.Perm calls' →
      ((∃ edits, applyAll file (new pageCount) calls = .ok edits) ↔
        ∃ edits, applyAll file (new pageCount) calls' = .ok edits) ∧
      ∀ edits edits', applyAll file (new pageCount) calls = .ok edits →
        applyAll file (new pageCount) calls' = .ok edits' →
        ∀ page, edits.changeOf page = edits'.changeOf page) := by
  refine ⟨?_, ?_, ?_, ?_⟩
  · rw [applyAll_ok_iff hnames, pairwise_iff_not_exists]
  · -- a call is refused where it conflicts with one of those before it
    intro done call rest hsplit edits hdone
    have hinitial : ∀ earlier ∈ done, earlier.Names source file pageCount :=
      fun earlier hearlier => hnames earlier (by rw [hsplit]; exact List.mem_append_left _ hearlier)
    obtain ⟨hpairwise, hmerged, hfirst⟩ := applyAll_merged hinitial hdone
    have hcall : call.Names source file edits.firstAppend :=
      hfirst ▸ hnames call (by rw [hsplit]; simp)
    have hok := hmerged.apply_ok_iff hpairwise hcall
    have hfail : (∃ e, call.apply file edits = .error e) ↔
        ¬∃ edits', call.apply file edits = .ok edits' := by
      cases call.apply file edits <;> simp
    rw [hfail, hok]
    simp only [not_forall, not_not, exists_prop]
  · intro edits hok page
    obtain ⟨hpairwise, hmerged, -⟩ := applyAll_merged hnames hok
    refine ⟨?_, fun offset => hmerged.current hpairwise page offset⟩
    rw [hmerged page]
    split <;> simp [*]
  · intro calls' hperm
    have hnames' : ∀ call ∈ calls', call.Names source file pageCount :=
      fun call hcall => hnames call (hperm.mem_iff.mpr hcall)
    refine ⟨?_, fun edits edits' hok hok' page => ?_⟩
    · rw [applyAll_ok_iff hnames, applyAll_ok_iff hnames']
      exact hperm.pairwise_iff fun hnone hother => hnone hother.symm
    · obtain ⟨hpairwise, hmerged, -⟩ := applyAll_merged hnames hok
      obtain ⟨-, hmerged', -⟩ := applyAll_merged hnames' hok'
      -- patches that agree are joined in any order
      have hpatches : (patchesOf source calls page).Perm (patchesOf source calls' page) :=
        (hperm.filter _).map _
      have hany : calls.any (fun call => call.page = page) =
          calls'.any (fun call => call.page = page) := hperm.any_eq
      rw [hmerged page, hmerged' page, Patch.join_perm (pairwise_patchesOf hpairwise page) hpatches,
        hany]

end Sequence

/-- A page of zeros with one other byte. -/
def markedPage (at' : ℕ) (byte : UInt8) : Page :=
  (Block.fill pageBytes 0).write at' [byte]

theorem markedPage_apply (at' : ℕ) (byte : UInt8) (offset : Fin pageBytes) :
    markedPage at' byte offset = if offset.val = at' then byte else 0 := by
  unfold markedPage Block.write
  by_cases h : offset.val = at'
  · rw [if_pos ⟨h.ge, by simp [h]⟩, if_pos h, h, Nat.sub_self]
    rfl
  · rw [if_neg fun hboth => h (by simp at hboth; omega), if_neg h]
    rfl

/-- Two calls mark different bytes of one page. -/
theorem applyAll_merges_markedPage :
    ∃ edits, applyAll [Block.fill pageBytes 0] (new 1)
        [.setImage 0 (markedPage 0 1),
          .replace { page := 0, before := Block.fill pageBytes 0, after := markedPage 1 2 }] =
      .ok edits ∧ edits.current (Block.fill pageBytes 0) 0 ⟨0, by decide⟩ = 1 ∧
        edits.current (Block.fill pageBytes 0) 0 ⟨1, by decide⟩ = 2 := by
  have hmerges := applyAll_merges (fun _ => Block.fill pageBytes 0) [Block.fill pageBytes 0] 1
    [.setImage 0 (markedPage 0 1),
      .replace { page := 0, before := Block.fill pageBytes 0, after := markedPage 1 2 }] (by
    intro call hcall
    rcases List.mem_cons.mp hcall with rfl | hcall
    · exact ⟨Nat.one_pos, rfl⟩
    · rw [List.mem_singleton.mp hcall]
      exact ⟨Nat.one_pos, rfl⟩)
  obtain ⟨edits, hok⟩ := hmerges.1.mpr (by
    -- Each request changes one byte, and these are different bytes.
    have hbyte : ∀ {at' : ℕ} {byte : UInt8} {offset : Fin pageBytes},
        (Block.fill pageBytes 0 : Page) offset ≠ markedPage at' byte offset → offset.val = at' := by
      intro at' byte offset hne
      by_contra h
      rw [markedPage_apply, if_neg h] at hne
      exact hne rfl
    rintro ⟨first, hfirst, second, hsecond, -, offset, hone, hother, hne⟩
    simp only [List.mem_cons, List.not_mem_nil, or_false] at hfirst hsecond
    rcases hfirst with rfl | rfl <;> rcases hsecond with rfl | rfl
    · exact hne rfl
    · exact absurd ((hbyte hone).symm.trans (hbyte hother)) (by decide)
    · exact absurd ((hbyte hone).symm.trans (hbyte hother)) (by decide)
    · exact hne rfl)
  have hbytes := (hmerges.2.2.1 edits hok 0).2
  have hfirst : markedPage 0 1 ⟨0, by decide⟩ = 1 := markedPage_apply 0 1 _
  have hsecond : markedPage 1 2 ⟨1, by decide⟩ = 2 := markedPage_apply 1 2 _
  refine ⟨edits, hok, ?_, ?_⟩
  · refine ((hbytes ⟨0, by decide⟩).1 _ List.mem_cons_self rfl fun heq => ?_).trans hfirst
    exact absurd (heq.trans hfirst) (by decide)
  · refine ((hbytes ⟨1, by decide⟩).1 _ (List.mem_cons_of_mem _ List.mem_cons_self) rfl
      fun heq => ?_).trans hsecond
    exact absurd (heq.trans hsecond) (by decide)

end PageEdits

end Jet3
