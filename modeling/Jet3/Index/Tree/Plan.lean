import Jet3.Index.Tree.Builder
import Jet3.Library.Outcome
import Jet3.Library.Tiling

/-!
# Planned index trees

What the planner makes of sorted records: leaves that hold them all in order, and levels of branches
over neighbouring nodes until a single node is left.

* `Leaves` and `Branches` are one level, and `Levels` the nodes up to a level;
* `new_levels` says that a plan consists of such levels, with one node at the top;
* `new_total` says when there is a plan: the planner stops, and refuses records of a wrong width and
  more nodes than it may use. `build` is the planner without its fuel.
-/

namespace Jet3

open Outcome Tiling

/-- The ends of a range. -/
def Range.pair (range : Range) : ℕ × ℕ := (range.start, range.stop)

/-- The records from one position to another. -/
def recordsIn (records : List (List UInt8)) (range : Range) : List (List UInt8) :=
  (records.drop range.start).take range.len

/-- Nodes that are added leave the others where they are. -/
theorem nodeAt_append_left {nodes more : List Node} {ordinal : ℕ} (h : ordinal < nodes.length) :
    nodeAt (nodes ++ more) ordinal = nodeAt nodes ordinal := by
  rw [nodeAt, nodeAt, List.getD_eq_getElem?_getD, List.getD_eq_getElem?_getD,
    List.getElem?_append_left h]

/-- The last record below a node is that of the nodes it was planned with. -/
theorem maximumRecord_append_left {records : List (List UInt8)} {nodes more : List Node}
    {ordinal : ℕ}
    (h : ordinal < nodes.length) :
    maximumRecord records (nodes ++ more) ordinal = maximumRecord records nodes ordinal := by
  rw [maximumRecord, maximumRecord, nodeAt_append_left h]

/-! ## Leaves -/

/-- Leaves that hold the records in order, each as many as it has room for. -/
structure Leaves (records : List (List UInt8)) (leaves : List Node) : Prop where
  fits : ∀ record ∈ records, RecordFits record
  leaf : ∀ leaf ∈ leaves, leaf.children = ⟨0, 0⟩
  tiles : Tiles 0 records.length (leaves.map fun leaf => leaf.entries.pair)
  room : ∀ leaf ∈ leaves, (recordsIn records leaf.entries).flatten.length ≤ entryAreaLen
  ne_nil : leaves ≠ []
  count : leaves.length ≤ max 1 records.length

variable {records : List (List UInt8)} {maximum : ℕ}

/-- A node is added where the limit allows one more. -/
theorem pushNode_eq (maximum : ℕ) (nodes : List Node) (entries children : Range) :
    pushNode maximum nodes entries children =
      if nodes.length = maximum then .error (.nodeLimit maximum)
      else .ok (nodes ++ [{ entries, children, siblings := ⟨0, 0⟩ }]) := by
  unfold pushNode refuseIf
  split <;> rfl

/-- The records of a range that grows by one. -/
theorem recordsIn_succ {first k : ℕ} {record : List UInt8} (hle : first ≤ k)
    (hrecord : records[k]? = some record) :
    recordsIn records ⟨first, k + 1⟩ = recordsIn records ⟨first, k⟩ ++ [record] := by
  have hlen : k + 1 - first = k - first + 1 := by omega
  have hget : (records.drop first)[k - first]? = some record := by
    rw [List.getElem?_drop, Nat.add_sub_cancel' hle, hrecord]
  simp only [recordsIn, Range.len, hlen, List.take_add_one, hget, Option.toList_some]

theorem recordsIn_self (k : ℕ) : recordsIn records ⟨k, k⟩ = [] := by
  simp [recordsIn, Range.len]

/-- Leaves that hold the records before `first`. -/
structure ClosedLeaves (records : List (List UInt8)) (nodes : List Node) (first : ℕ) : Prop where
  leaf : ∀ leaf ∈ nodes, leaf.children = ⟨0, 0⟩
  tiles : Tiles 0 first (nodes.map fun leaf => leaf.entries.pair)
  room : ∀ leaf ∈ nodes, (recordsIn records leaf.entries).flatten.length ≤ entryAreaLen
  nonempty : ∀ leaf ∈ nodes, leaf.entries.start + 1 ≤ leaf.entries.stop

/-- Every closed leaf holds a record. -/
theorem ClosedLeaves.length_le {nodes : List Node} {first : ℕ}
    (h : ClosedLeaves records nodes first) :
    nodes.length ≤ first := by
  have hcount := h.tiles.length_mul_le 1 (by
    intro range hrange
    obtain ⟨leaf, hleaf, rfl⟩ := List.mem_map.mp hrange
    exact h.nonempty leaf hleaf)
  rw [List.length_map] at hcount
  omega

/-- A leaf that is closed holds the records since the one before it. -/
theorem ClosedLeaves.push {nodes : List Node} {first stop : ℕ} {siblings : Range}
    (h : ClosedLeaves records nodes first) (hlt : first < stop)
    (hroom : (recordsIn records ⟨first, stop⟩).flatten.length ≤ entryAreaLen) :
    ClosedLeaves records
      (nodes ++ [{ entries := ⟨first, stop⟩, children := ⟨0, 0⟩, siblings }]) stop where
  leaf := List.forall_mem_append.mpr ⟨h.leaf, List.forall_mem_singleton.mpr rfl⟩
  tiles := by
    rw [List.map_append, List.map_singleton]
    exact h.tiles.snoc hlt.le
  room := List.forall_mem_append.mpr ⟨h.room, List.forall_mem_singleton.mpr hroom⟩
  nonempty := List.forall_mem_append.mpr ⟨h.nonempty, List.forall_mem_singleton.mpr hlt⟩

/-- Where the loop over the records stands before the record at `k`. -/
structure LeavesUpTo (records : List (List UInt8)) (k : ℕ) (state : LeafState) : Prop where
  closed : ClosedLeaves records state.nodes state.first
  first_le : state.first ≤ k
  first_lt : k ≠ 0 → state.first < k
  used_eq : state.used = (recordsIn records ⟨state.first, k⟩).flatten.length
  used_le : state.used ≤ entryAreaLen

/-- One record more. The current leaf is closed before it where there is no room for it. -/
theorem LeavesUpTo.leafStep (maximum : ℕ) {k : ℕ} {state : LeafState} {record : List UInt8}
    (h : LeavesUpTo records k state) (hrecord : records[k]? = some record)
    (hfits : RecordFits record) :
    (∃ state', Jet3.leafStep maximum state (record, k) = .ok state' ∧
      LeavesUpTo records (k + 1) state') ∨
      Jet3.leafStep maximum state (record, k) = .error (.nodeLimit maximum) ∧
        maximum < records.length := by
  have harea : entryAreaLen = 1800 := rfl
  have hwidth : record.length ≤ 1800 / 2 - 4 := hfits.2
  have hlt := (List.getElem?_eq_some_iff.mp hrecord).1
  have hstep : Jet3.leafStep maximum state (record, k) =
      (closeLeaf maximum k record.length state >>= fun state =>
        .ok { state with used := state.used + record.length }) := by
    simp only [Jet3.leafStep, refuseIf, hfits]
    rfl
  have hused := h.used_eq
  rw [hstep, closeLeaf, pushNode_eq]
  split
  next hfull =>
    -- the leaf holds more than one record could take, so it is not empty
    have hk : k ≠ 0 := by
      rintro rfl
      rw [show state.first = 0 from Nat.le_zero.mp h.first_le, recordsIn_self] at hused
      simp only [List.flatten_nil, List.length_nil] at hused
      omega
    have hfirst := h.first_lt hk
    have hlength := h.closed.length_le
    split
    next hmaximum => exact .inr ⟨rfl, by omega⟩
    next =>
      refine .inl ⟨_, rfl, h.closed.push hfirst (hused ▸ h.used_le), Nat.le_succ k,
        fun _ => Nat.lt_succ_self k, ?_, ?_⟩
      · rw [recordsIn_succ le_rfl hrecord, recordsIn_self]
        simp
      · show 0 + record.length ≤ entryAreaLen
        omega
  next hroom =>
    refine .inl ⟨_, rfl, h.closed, h.first_le.trans (Nat.le_succ k),
      fun _ => Nat.lt_succ_of_le h.first_le, ?_, by dsimp only; omega⟩
    rw [recordsIn_succ h.first_le hrecord, List.flatten_append, List.length_append,
      List.flatten_singleton, ← hused]

/-- The loop over the records. -/
theorem LeavesUpTo.foldlM (maximum : ℕ) {k : ℕ} {state : LeafState} {rest : List (List UInt8)}
    (hfits : ∀ record ∈ records, RecordFits record) (h : LeavesUpTo records k state)
    (hrest : records.drop k = rest) :
    (∃ state', (rest.zipIdx k).foldlM (Jet3.leafStep maximum) state = .ok state' ∧
      LeavesUpTo records (k + rest.length) state') ∨
      (rest.zipIdx k).foldlM (Jet3.leafStep maximum) state = .error (.nodeLimit maximum) ∧
        maximum < records.length := by
  induction rest generalizing k state with
  | nil => exact .inl ⟨state, rfl, h⟩
  | cons record rest ih =>
    have hrecord : records[k]? = some record := by
      rw [← List.head?_drop, hrest, List.head?_cons]
    have hdrop : records.drop (k + 1) = rest := by
      rw [← List.drop_drop, hrest, List.drop_one, List.tail_cons]
    rw [List.zipIdx_cons, List.foldlM_cons]
    rcases h.leafStep maximum hrecord (hfits record (List.mem_of_getElem? hrecord)) with
      ⟨state', hstep, hstate'⟩ | ⟨hstep, hmaximum⟩
    · rw [hstep, List.length_cons, Nat.add_comm rest.length, ← Nat.add_assoc]
      exact ih hstate' hdrop
    · rw [hstep]
      exact .inr ⟨rfl, hmaximum⟩

/-- The leaves of records that fit. -/
theorem leafNodes_total (records : List (List UInt8)) (maximum : ℕ)
    (hfits : ∀ record ∈ records, RecordFits record) :
    (∃ leaves, leafNodes records maximum = .ok leaves ∧ Leaves records leaves) ∨
      leafNodes records maximum = .error (.nodeLimit maximum) ∧ maximum < max 1 records.length := by
  have hstart : LeavesUpTo records 0 { nodes := [], first := 0, used := 0 } :=
    { closed := ⟨by simp, rfl, by simp, by simp⟩
      first_le := le_rfl
      first_lt := fun h => absurd rfl h
      used_eq := by rw [recordsIn_self]; rfl
      used_le := Nat.zero_le _ }
  -- the loop closes full leaves; what is left becomes the last leaf
  unfold leafNodes
  rcases LeavesUpTo.foldlM maximum hfits hstart List.drop_zero with
    ⟨state, hloop, hstate⟩ | ⟨hloop, hmaximum⟩
  · rw [Nat.zero_add] at hstate
    have hlength := hstate.closed.length_le
    have hle := hstate.first_le
    have hlt := hstate.first_lt
    rw [hloop]
    show (∃ leaves, pushNode maximum state.nodes _ _ = .ok leaves ∧ _) ∨
      pushNode maximum state.nodes _ _ = .error (.nodeLimit maximum) ∧ _
    rw [pushNode_eq]
    split
    next hmaximum => exact .inr ⟨rfl, by omega⟩
    next =>
      refine .inl ⟨_, rfl, hfits, ?_, ?_, ?_,
        List.append_ne_nil_of_right_ne_nil _ (List.cons_ne_nil _ _),
        ?_⟩
      · exact List.forall_mem_append.mpr ⟨hstate.closed.leaf, List.forall_mem_singleton.mpr rfl⟩
      · rw [List.map_append, List.map_singleton]
        exact hstate.closed.tiles.snoc hle
      · exact List.forall_mem_append.mpr ⟨hstate.closed.room, List.forall_mem_singleton.mpr
          (hstate.used_eq ▸ hstate.used_le)⟩
      · rw [List.length_append, List.length_singleton]
        omega
  · rw [hloop]
    exact .inr ⟨rfl, by omega⟩

/-- Leaves are made of records that fit only. -/
theorem recordFits_of_leafNodes {leaves : List Node} (h : leafNodes records maximum = .ok leaves) :
    ∀ record ∈ records, RecordFits record := by
  simp only [leafNodes, bind_ok_iff] at h
  obtain ⟨state, hloop, -⟩ := h
  have hall := foldlM_ok_induction (fun done _ => ∀ entry ∈ done, RecordFits entry.1) (by simp) (by
    rintro done entry rest state state' - hdone hstep other hother
    simp only [leafStep, bind_ok_iff, exists_unit, refuseIf_ok_iff, not_not] at hstep
    rcases List.mem_append.mp hother with hold | hnew
    · exact hdone other hold
    · rw [List.mem_singleton.mp hnew]
      exact hstep.1) hloop
  intro record hrecord
  obtain ⟨i, hi⟩ := List.mem_iff_getElem?.mp hrecord
  exact hall (record, i) (List.mem_zipIdx_iff_getElem?.mpr hi)

/-! ## Branches -/

/-- The bytes a node takes in its parent: its last record, and the reference. -/
def separatorLen (records : List (List UInt8)) (nodes : List Node) (ordinal : ℕ) : ℕ :=
  (maximumRecord records nodes ordinal).length + branchChildLen

/-- The bytes of a branch over the nodes from `start` to `stop`. The last of them has no
separator. -/
def separatorsLen (records : List (List UInt8)) (nodes : List Node) (start stop : ℕ) : ℕ :=
  ((List.range' start (stop - 1 - start)).map (separatorLen records nodes)).sum

/-- Branches over the nodes from `start` to `stop`, with at least two nodes each. -/
structure Branches (records : List (List UInt8)) (below : List Node) (start stop : ℕ)
    (branches : List Node) : Prop where
  tiles : Tiles start stop (branches.map fun branch => branch.children.pair)
  pair : ∀ branch ∈ branches, branch.children.start + 2 ≤ branch.children.stop
  entries_eq : ∀ branch ∈ branches, branch.entries =
    ⟨(nodeAt below branch.children.start).entries.start,
      (nodeAt below (branch.children.stop - 1)).entries.stop⟩
  room : ∀ branch ∈ branches,
    separatorsLen records below branch.children.start branch.children.stop ≤ entryAreaLen

section Groups

variable {nodes : List Node}

/-- A separator leaves room for a second one. -/
theorem separatorLen_le (hfits : ∀ record ∈ records, RecordFits record) (ordinal : ℕ) :
    separatorLen records nodes ordinal ≤ entryAreaLen / 2 := by
  have harea : entryAreaLen = 1800 := rfl
  have hchild : branchChildLen = 4 := rfl
  have hwidth : (maximumRecord records nodes ordinal).length ≤ 1800 / 2 - 4 := by
    unfold maximumRecord
    rw [List.getD_eq_getElem?_getD]
    cases hrecord : records[(nodeAt nodes ordinal).entries.stop - 1]? with
    | none => simp
    | some record => exact (hfits record (List.mem_of_getElem? hrecord)).2
  rw [separatorLen]
  omega

/-- More separators need more room. -/
theorem separatorsLen_mono {start stop stop' : ℕ} (h : stop ≤ stop') :
    separatorsLen records nodes start stop ≤ separatorsLen records nodes start stop' := by
  obtain ⟨more, hmore⟩ :=
    Nat.exists_eq_add_of_le (show stop - 1 - start ≤ stop' - 1 - start by omega)
  rw [separatorsLen, separatorsLen, hmore, ← List.range'_append_1, List.map_append, List.sum_append]
  exact Nat.le_add_right _ _

/-- One more separator. -/
theorem separatorsLen_succ {start stop : ℕ} (h : start < stop) :
    separatorsLen records nodes start (stop + 1) =
      separatorsLen records nodes start stop + separatorLen records nodes (stop - 1) := by
  have hcount : stop + 1 - 1 - start = stop - 1 - start + 1 := by omega
  have hlast : start + (stop - 1 - start) = stop - 1 := by omega
  rw [separatorsLen, hcount, List.range'_1_concat, List.map_append, List.sum_append, hlast,
    List.map_singleton, List.sum_singleton, separatorsLen]

/-- What a group takes has room, and ends with the level at the latest. -/
theorem groupEnd_spec {first remaining stop used : ℕ} (hfirst : first < stop)
    (hused : used = separatorsLen records nodes first stop) (hroom : used ≤ entryAreaLen) :
    stop ≤ groupEnd records nodes remaining stop used ∧
      groupEnd records nodes remaining stop used ≤ stop + remaining ∧
      separatorsLen records nodes first (groupEnd records nodes remaining stop used) ≤
        entryAreaLen := by
  induction remaining generalizing stop used with
  | zero => exact ⟨le_rfl, le_rfl, hused ▸ hroom⟩
  | succ remaining ih =>
    rw [groupEnd]
    split
    next => exact ⟨le_rfl, Nat.le_add_right _ _, hused ▸ hroom⟩
    next hfree =>
      have hnext := @separatorsLen_succ records nodes _ _ hfirst
      rw [← hused, separatorLen] at hnext
      obtain ⟨hle, hend, hlen⟩ := ih (Nat.lt_succ_of_lt hfirst) hnext.symm (not_lt.mp hfree)
      exact ⟨(Nat.le_succ stop).trans hle, hend.trans (by omega), hlen⟩

/-- A group does not shrink. -/
theorem le_groupEnd (remaining stop used : ℕ) :
    stop ≤ groupEnd records nodes remaining stop used := by
  induction remaining generalizing stop used with
  | zero => exact le_rfl
  | succ remaining ih =>
    rw [groupEnd]
    split
    next => exact le_rfl
    next => exact (Nat.le_succ stop).trans (ih _ _)

/-- A group takes two separators where there are as many. -/
theorem groupEnd_two (hfits : ∀ record ∈ records, RecordFits record) (remaining stop : ℕ) :
    stop + min remaining 2 ≤ groupEnd records nodes remaining stop 0 := by
  have harea : entryAreaLen = 1800 := rfl
  have hsmall := fun ordinal => @separatorLen_le _ nodes hfits ordinal
  simp only [separatorLen] at hsmall
  have hfirst := hsmall (stop - 1)
  have hsecond := hsmall (stop + 1 - 1)
  rcases remaining with _ | _ | remaining
  · simp [groupEnd]
  · rw [groupEnd, if_neg (by omega)]
    simp [groupEnd]
  · rw [groupEnd, if_neg (by omega), groupEnd, if_neg (by omega)]
    exact (by omega : stop + min (remaining + 2) 2 ≤ stop + 1 + 1).trans (le_groupEnd _ _ _)

/-- The end of a group depends on the nodes below it only. -/
theorem groupEnd_append_left {below more : List Node} {remaining stop used : ℕ}
    (h : stop + remaining ≤ below.length + 1) (hpos : 0 < stop) :
    groupEnd records (below ++ more) remaining stop used =
      groupEnd records below remaining stop used := by
  induction remaining generalizing stop used with
  | zero => rfl
  | succ remaining ih =>
    rw [groupEnd, groupEnd, maximumRecord_append_left (by omega), ih (by omega) (Nat.succ_pos _)]

/-- The group at `first`, of a level of which no single node is left. -/
theorem childGroup_spec (hfits : ∀ record ∈ records, RecordFits record) {below more : List Node}
    {start first : ℕ} (hfirst : first + 2 ≤ below.length) :
    let group := childGroup records (below ++ more) ⟨start, below.length⟩ first
    group.start = first ∧ first + 2 ≤ group.stop ∧ group.stop ≤ below.length ∧
      below.length ≠ group.stop + 1 ∧
      separatorsLen records below first group.stop ≤ entryAreaLen := by
  have hempty : 0 = separatorsLen records below first (first + 1) := by
    simp [separatorsLen]
  obtain ⟨-, hend, hroom⟩ := @groupEnd_spec records below first
    (below.length - (first + 1)) (first + 1) 0 (Nat.lt_succ_self _) hempty (Nat.zero_le _)
  have htwo := @groupEnd_two _ below hfits (below.length - (first + 1)) (first + 1)
  have hsame := @groupEnd_append_left records below more (below.length - (first + 1)) (first + 1) 0
    (by omega) (Nat.succ_pos _)
  simp only [childGroup, hsame]
  generalize groupEnd records below (below.length - (first + 1)) (first + 1) 0 =
    stop at hend hroom htwo ⊢
  split
  next hone =>
    exact ⟨trivial, by omega, by omega, by omega, (separatorsLen_mono (Nat.sub_le _ _)).trans hroom⟩
  next => exact ⟨trivial, by omega, by omega, by omega, hroom⟩

/-- One branch more over the nodes behind the others. -/
theorem Branches.push {below branches : List Node} {start first stop : ℕ}
    (h : Branches records below start first branches) (siblings : Range) (hpair : first + 2 ≤ stop)
    (hroom : separatorsLen records below first stop ≤ entryAreaLen) :
    Branches records below start stop (branches ++
      [{ entries := ⟨(nodeAt below first).entries.start, (nodeAt below (stop - 1)).entries.stop⟩
         children := ⟨first, stop⟩, siblings }]) where
  tiles := by
    rw [List.map_append, List.map_singleton]
    exact h.tiles.snoc (by omega)
  pair := List.forall_mem_append.mpr ⟨h.pair, List.forall_mem_singleton.mpr hpair⟩
  entries_eq := List.forall_mem_append.mpr ⟨h.entries_eq, List.forall_mem_singleton.mpr rfl⟩
  room := List.forall_mem_append.mpr ⟨h.room, List.forall_mem_singleton.mpr hroom⟩

/-- There are half as many branches as nodes below them at most. -/
theorem Branches.length_le {below branches : List Node} {start stop : ℕ}
    (h : Branches records below start stop branches) : start + branches.length * 2 ≤ stop := by
  have hcount := h.tiles.length_mul_le 2 (by
    intro range hrange
    obtain ⟨branch, hbranch, rfl⟩ := List.mem_map.mp hrange
    exact h.pair branch hbranch)
  rwa [List.length_map] at hcount

/-- The branches above a level. -/
theorem parentNodes_total (hfits : ∀ record ∈ records, RecordFits record) (maximum : ℕ)
    {below branches : List Node} {start first fuel : ℕ}
    (h : Branches records below start first branches) (hfirst : first ≤ below.length)
    (hone : below.length ≠ first + 1) (hfuel : below.length - first < fuel) :
    (∃ branches', parentNodes records maximum ⟨start, below.length⟩ fuel (below ++ branches) first =
        .ok (some (below ++ branches')) ∧ Branches records below start below.length branches') ∨
      parentNodes records maximum ⟨start, below.length⟩ fuel (below ++ branches) first =
        .error (.nodeLimit maximum) ∧ maximum + 1 ≤ below.length + (below.length - start) / 2 := by
  induction fuel generalizing branches first with
  | zero => omega
  | succ fuel ih =>
    rw [parentNodes]
    dsimp only
    split
    next hlt =>
      -- the next group has two children or more, and leaves none or at least two behind
      obtain ⟨hstart, hpair, hstop, hrest, hroom⟩ :=
        @childGroup_spec _ hfits below branches start first
        (by omega)
      generalize childGroup records (below ++ branches) ⟨start, below.length⟩ first = group at *
      obtain ⟨groupStart, stop⟩ := group
      dsimp only at *
      subst hstart
      rw [nodeAt_append_left (by omega), nodeAt_append_left (by omega), pushNode_eq]
      have hnext := h.push ⟨0, 0⟩ hpair hroom
      split
      next hmaximum =>
        refine .inr ⟨rfl, ?_⟩
        -- every branch has two children, which bounds the nodes where the limit is met
        have hlength := hnext.length_le
        rw [List.length_append] at hmaximum hlength
        rw [List.length_singleton] at hlength
        omega
      next =>
        rw [List.append_assoc]
        exact ih hnext hstop hrest (by omega)
    next hge =>
      obtain rfl : first = below.length := by omega
      exact .inl ⟨branches, rfl, h⟩

end Groups

/-! ## Levels -/

/-- The nodes up to a level, which starts at the given position. -/
inductive Levels (records : List (List UInt8)) : List Node → ℕ → Prop
  | leaves {leaves : List Node} (h : Leaves records leaves)
      (siblings : ∀ leaf ∈ leaves, leaf.siblings = ⟨0, leaves.length⟩) : Levels records leaves 0
  | branches {nodes branches : List Node} {start : ℕ} (below : Levels records nodes start)
      (wide : start + 2 ≤ nodes.length) (h : Branches records nodes start nodes.length branches)
      (siblings : ∀ branch ∈ branches,
        branch.siblings = ⟨nodes.length, nodes.length + branches.length⟩) :
      Levels records (nodes ++ branches) nodes.length

namespace Levels

variable {nodes : List Node} {start : ℕ}

/-- Every record of a planned tree fits a node. -/
theorem fits (h : Levels records nodes start) : ∀ record ∈ records, RecordFits record := by
  induction h with
  | leaves h => exact h.fits
  | branches _ _ _ _ ih => exact ih

/-- A level has a node. -/
theorem lt (h : Levels records nodes start) : start < nodes.length := by
  induction h with
  | leaves h => exact List.length_pos_of_ne_nil h.ne_nil
  | @branches nodes branches start below wide h siblings ih =>
    rw [List.length_append]
    refine Nat.lt_add_of_pos_right (List.length_pos_of_ne_nil ?_)
    rintro rfl
    have hempty : start = nodes.length := h.tiles
    omega

end Levels

/-- The siblings of the nodes of a level, which stands behind the others. -/
theorem linkSiblings_append (below level : List Node) :
    linkSiblings (below ++ level) below.length =
      below ++ level.map fun node =>
        { node with siblings := ⟨below.length, below.length + level.length⟩ } := by
  rw [linkSiblings, List.take_left' rfl, List.drop_left' rfl, List.length_append]

/-- Linked leaves are the lowest level of a tree. -/
theorem Leaves.link {leaves : List Node} (h : Leaves records leaves) :
    Levels records (linkSiblings leaves 0) 0 := by
  have hlink := linkSiblings_append [] leaves
  simp only [List.nil_append, List.length_nil, Nat.zero_add] at hlink
  rw [hlink]
  refine .leaves ⟨h.fits, ?_, ?_, ?_, ?_, by simpa using h.count⟩ ?_
  · exact List.forall_mem_map.mpr h.leaf
  · rw [List.map_map]
    exact h.tiles
  · exact List.forall_mem_map.mpr h.room
  · exact fun hnil => h.ne_nil (List.map_eq_nil_iff.mp hnil)
  · rw [List.length_map]
    exact List.forall_mem_map.mpr fun _ _ => rfl

/-- Linked branches are the next level. -/
theorem Branches.link {below branches : List Node} {start : ℕ}
    (h : Branches records below start below.length branches) (hbelow : Levels records below start)
    (hwide : start + 2 ≤ below.length) :
    Levels records (linkSiblings (below ++ branches) below.length) below.length := by
  rw [linkSiblings_append]
  refine .branches hbelow hwide ⟨?_, ?_, ?_, ?_⟩ ?_
  · rw [List.map_map]
    exact h.tiles
  · exact List.forall_mem_map.mpr h.pair
  · exact List.forall_mem_map.mpr h.entries_eq
  · exact List.forall_mem_map.mpr h.room
  · rw [List.length_map]
    exact List.forall_mem_map.mpr fun _ _ => rfl

/-- The levels above a level end with a single node. Each has half as many nodes as the one
below. -/
theorem levelNodes_total (maximum : ℕ) {nodes : List Node} {start fuel : ℕ}
    (h : Levels records nodes start) (hfuel : nodes.length - start ≤ fuel) :
    (∃ nodes' start', levelNodes records maximum fuel nodes ⟨start, nodes.length⟩ =
      .ok (some nodes') ∧
        Levels records nodes' start' ∧ nodes'.length = start' + 1 ∧
        nodes'.length + 1 ≤ nodes.length + (nodes.length - start)) ∨
      levelNodes records maximum fuel nodes ⟨start, nodes.length⟩ = .error (.nodeLimit maximum) ∧
        maximum + 1 < nodes.length + (nodes.length - start) := by
  induction fuel generalizing nodes start with
  | zero =>
    have hlt := h.lt
    omega
  | succ fuel ih =>
    have hlt := h.lt
    rw [levelNodes]
    split
    next hlen =>
      -- a level of more than one node gets a level above it
      have hwide : start + 2 ≤ nodes.length := by
        simp only [Range.len] at hlen
        omega
      have hnone : Branches records nodes start start [] := ⟨rfl, by simp, by simp, by simp⟩
      have hparents := parentNodes_total h.fits maximum hnone hlt.le (by omega)
        (show nodes.length - start <
          (⟨start, nodes.length⟩ : Range).len + 1 from Nat.lt_succ_self _)
      rw [List.append_nil] at hparents
      rcases hparents with ⟨branches, hok, hbranches⟩ | ⟨herror, hmaximum⟩
      · have hlevels := hbranches.link h hwide
        -- which has at most half as many nodes
        have hhalf := hbranches.length_le
        have hlength : (linkSiblings (nodes ++ branches) nodes.length).length =
            nodes.length + branches.length := by
          rw [linkSiblings_append, List.length_append, List.length_map]
        have hrest := ih hlevels (by omega)
        rw [hlength, ← List.length_append] at hrest
        rw [hok]
        have htotal : (nodes ++ branches).length = nodes.length + branches.length :=
          List.length_append
        rcases hrest with ⟨nodes', start', hnodes', hlevels', hsingle, hbound⟩ | ⟨hlimit, hbound⟩
        · exact .inl ⟨nodes', start', hnodes', hlevels', hsingle, by omega⟩
        · exact .inr ⟨hlimit, by omega⟩
      · rw [herror]
        exact .inr ⟨rfl, by omega⟩
    next hlen =>
      simp only [Range.len] at hlen
      exact .inl ⟨nodes, start, rfl, h, by omega, by omega⟩

/-! ## The nodes of a plan -/

/-- The nodes of a level that stands behind the others. -/
theorem map_nodeAt (below level : List Node) :
    (List.range' below.length level.length).map (nodeAt (below ++ level)) = level := by
  refine List.ext_getElem (by simp) fun i hi hi' => ?_
  rw [List.getElem_map, List.getElem_range', Nat.one_mul, nodeAt, List.getD_eq_getElem?_getD,
    List.getElem?_append_right (Nat.le_add_right _ _), Nat.add_sub_cancel_left,
    List.getElem?_eq_getElem hi', Option.getD_some]

theorem map_entries (nodes : List Node) (ordinals : List ℕ) :
    (ordinals.map fun ordinal => (nodeAt nodes ordinal).entries.pair) =
      (ordinals.map (nodeAt nodes)).map fun node => node.entries.pair := by
  rw [List.map_map]
  rfl

/-- The nodes behind the ones below are those of the level. -/
theorem nodeAt_append_mem {below level : List Node} {ordinal : ℕ} (hge : below.length ≤ ordinal)
    (hlt : ordinal < below.length + level.length) : nodeAt (below ++ level) ordinal ∈ level := by
  have hmem : nodeAt (below ++ level) ordinal ∈
      (List.range' below.length level.length).map (nodeAt (below ++ level)) :=
    List.mem_map_of_mem (List.mem_range'_1.mpr ⟨hge, hlt⟩)
  rwa [map_nodeAt] at hmem

/-- What a node of a plan may be, behind the nodes it may refer to. -/
inductive Planned (records : List (List UInt8)) (nodes : List Node) (ordinal : ℕ) (node : Node) :
    Prop
  | leaf (children : node.children = ⟨0, 0⟩) (stop : node.entries.stop ≤ records.length)
      (room : (recordsIn records node.entries).flatten.length ≤ entryAreaLen)
  | branch (pair : node.children.start + 2 ≤ node.children.stop)
    (stop : node.children.stop ≤ ordinal)
      (room : separatorsLen records nodes node.children.start node.children.stop ≤ entryAreaLen)

/-- The room of separators depends on the nodes below only. -/
theorem separatorsLen_append_left {below more : List Node} {start stop : ℕ}
    (h : stop ≤ below.length) :
    separatorsLen records (below ++ more) start stop = separatorsLen records below start stop := by
  rw [separatorsLen, separatorsLen]
  congr 1
  refine List.map_congr_left fun ordinal hordinal => ?_
  obtain ⟨hge, hlt⟩ := List.mem_range'_1.mp hordinal
  rw [separatorLen, separatorLen, maximumRecord_append_left (by omega)]

/-- A planned node stays one when nodes are added. -/
theorem Planned.append_left {below more : List Node} {ordinal : ℕ} {node : Node}
    (h : Planned records below ordinal node) (hlt : ordinal < below.length) :
    Planned records (below ++ more) ordinal node := by
  rcases h with ⟨children, stop, room⟩ | ⟨pair, stop, room⟩
  · exact .leaf children stop room
  · refine .branch pair stop ?_
    rwa [separatorsLen_append_left (stop.trans hlt.le)]

namespace Levels

variable {nodes : List Node} {start : ℕ}

/-- The top level holds all records in order. -/
theorem tiles (h : Levels records nodes start) :
    Tiles 0 records.length ((List.range' start (nodes.length - start)).map fun ordinal =>
      (nodeAt nodes ordinal).entries.pair) := by
  induction h with
  | @leaves leaves h siblings =>
    have hlevel := map_nodeAt [] leaves
    simp only [List.nil_append, List.length_nil] at hlevel
    rw [Nat.sub_zero, map_entries, hlevel]
    exact h.tiles
  | @branches nodes branches start below wide h siblings ih =>
    have hlt := below.lt
    have hgroups := h.tiles
    rw [show nodes.length = start + (nodes.length - start) by omega] at hgroups
    have hgroup := ih.group hgroups (by
      intro range hrange
      obtain ⟨branch, hbranch, rfl⟩ := List.mem_map.mp hrange
      have hpair := h.pair branch hbranch
      show branch.children.start < branch.children.stop
      omega)
    rw [List.length_append, Nat.add_sub_cancel_left, map_entries, map_nodeAt]
    rw [List.map_map] at hgroup
    convert hgroup using 1
    refine List.map_congr_left fun branch hbranch => ?_
    rw [h.entries_eq branch hbranch]
    rfl

/-- The records of a node are there. -/
theorem stop_le (h : Levels records nodes start) {ordinal : ℕ} (hlt : ordinal < nodes.length) :
    (nodeAt nodes ordinal).entries.stop ≤ records.length := by
  have htop : start ≤ ordinal → (nodeAt nodes ordinal).entries.stop ≤ records.length := fun hle =>
    (h.tiles.mem (List.mem_map_of_mem (List.mem_range'_1.mpr ⟨hle, by omega⟩))).2.2
  induction h with
  | leaves h => exact htop (Nat.zero_le _)
  | @branches nodes branches start below wide h siblings ih =>
    rcases Nat.lt_or_ge ordinal nodes.length with hbelow | hge
    · rw [nodeAt_append_left hbelow]
      exact ih hbelow fun hle =>
        (below.tiles.mem (List.mem_map_of_mem (List.mem_range'_1.mpr ⟨hle, by omega⟩))).2.2
    · exact htop hge

/-- Two nodes have a record between them. -/
theorem records_ne_nil (h : Levels records nodes start) (htwo : 2 ≤ nodes.length) :
    records ≠ [] := by
  induction h with
  | leaves h =>
    have hcount := h.count
    rintro rfl
    rw [List.length_nil] at hcount
    omega
  | branches _ wide _ _ ih => exact ih (by omega)

/-- The separator of a node is one of the records. -/
theorem maximumRecord_mem (h : Levels records nodes start) {ordinal : ℕ}
    (hlt : ordinal < nodes.length)
    (hne : records ≠ []) : maximumRecord records nodes ordinal ∈ records := by
  have hstop := h.stop_le hlt
  have hpos := List.length_pos_of_ne_nil hne
  have hindex : (nodeAt nodes ordinal).entries.stop - 1 < records.length := by omega
  rw [maximumRecord, List.getD_eq_getElem?_getD, List.getElem?_eq_getElem hindex, Option.getD_some]
  exact List.getElem_mem hindex

/-- Every node is a leaf or a branch over nodes before it. -/
theorem planned (h : Levels records nodes start) {ordinal : ℕ} (hlt : ordinal < nodes.length) :
    Planned records nodes ordinal (nodeAt nodes ordinal) ∧
      (nodeAt nodes ordinal).siblings.stop ≤ nodes.length := by
  have hstop := h.stop_le hlt
  induction h with
  | @leaves leaves h siblings =>
    have hmem : nodeAt leaves ordinal ∈ leaves := by
      rw [nodeAt, List.getD_eq_getElem?_getD, List.getElem?_eq_getElem hlt, Option.getD_some]
      exact List.getElem_mem hlt
    rw [siblings _ hmem]
    exact ⟨.leaf (h.leaf _ hmem) hstop (h.room _ hmem), le_rfl⟩
  | @branches nodes branches start below wide h siblings ih =>
    rw [List.length_append] at hlt ⊢
    rcases Nat.lt_or_ge ordinal nodes.length with hbelow | hge
    · rw [nodeAt_append_left hbelow] at hstop ⊢
      obtain ⟨hplanned, hsiblings⟩ := ih hbelow hstop
      exact ⟨hplanned.append_left hbelow, by omega⟩
    · have hmem : nodeAt (nodes ++ branches) ordinal ∈ branches := nodeAt_append_mem hge hlt
      have hend : (nodeAt (nodes ++ branches) ordinal).children.stop ≤ nodes.length :=
        (h.tiles.mem (List.mem_map_of_mem hmem)).2.2
      rw [siblings _ hmem]
      refine ⟨.branch (h.pair _ hmem) (hend.trans hge) ?_, le_rfl⟩
      rw [separatorsLen_append_left hend]
      exact h.room _ hmem

/-- The root holds all records. -/
theorem root_stop (h : Levels records nodes start) (hroot : nodes.length = start + 1) :
    (nodeAt nodes start).entries.stop = records.length := by
  have htiles := h.tiles
  rw [hroot, Nat.add_sub_cancel_left] at htiles
  exact htiles.last_eq rfl

end Levels

namespace ScalarIndexPages

/-- Records that fit have a plan, or need more nodes than there may be. One less than two for each
record are always enough. -/
theorem new_total (records : List (List UInt8)) (maximum : ℕ)
    (hfits : ∀ record ∈ records, RecordFits record) :
    (∃ plan start, new records maximum = .ok (some plan) ∧ Levels records plan.nodes start ∧
        plan.nodes.length = start + 1 ∧ plan.nodes.length + 1 ≤ 2 * max 1 records.length) ∨
      new records maximum = .error (.nodeLimit maximum) ∧ maximum + 1 <
        2 * max 1 records.length := by
  unfold new
  rcases leafNodes_total records maximum hfits with ⟨leaves, hleaves, hlevel⟩ | ⟨herror, hmaximum⟩
  · have hlength : (linkSiblings leaves 0).length = leaves.length := by
      simp [linkSiblings]
    have hlevels := levelNodes_total maximum hlevel.link
      (show (linkSiblings leaves 0).length - 0 ≤ leaves.length by omega)
    have hcount := hlevel.count
    rw [hlength] at hlevels
    rw [hleaves]
    rcases hlevels with ⟨nodes, start, hok, hnodes, hsingle, hbound⟩ | ⟨herror, hbound⟩
    · refine .inl ⟨{ nodes }, start, ?_, hnodes, hsingle, show nodes.length + 1 ≤ _ by omega⟩
      show (levelNodes records maximum _ _ _ >>= _) = _
      rw [hok]
      rfl
    · refine .inr ⟨?_, by omega⟩
      show (levelNodes records maximum _ _ _ >>= _) = _
      rw [herror]
      rfl
  · rw [herror]
    exact .inr ⟨rfl, by omega⟩

/-- Only records that fit have a plan. -/
theorem recordFits_of_new {plan : Option ScalarIndexPages} (h : new records maximum = .ok plan) :
    ∀ record ∈ records, RecordFits record := by
  simp only [new, bind_ok_iff] at h
  obtain ⟨leaves, hleaves, -⟩ := h
  exact recordFits_of_leafNodes hleaves

/-- The planner stops. -/
theorem new_ne_none (records : List (List UInt8)) (maximum : ℕ) :
    new records maximum ≠ .ok none := by
  intro h
  rcases new_total records maximum (recordFits_of_new h) with ⟨plan, start, hok, -⟩ | ⟨herror, -⟩
  · rw [h] at hok
    cases hok
  · rw [h] at herror
    cases herror

/-- The plan of records; `new` has fuel enough. -/
def build (records : List (List UInt8)) (maximum : ℕ) : Except TreeBuildError ScalarIndexPages :=
  match h : new records maximum with
  | .error error => .error error
  | .ok none => absurd h (new_ne_none records maximum)
  | .ok (some layout) => .ok layout

/-- Building a plan is planning that finds room. -/
@[simp]
theorem build_ok_iff {layout : ScalarIndexPages} :
    build records maximum = .ok layout ↔ new records maximum = .ok (some layout) := by
  unfold build
  split
  next error h => simp [h]
  next h => exact absurd h (new_ne_none records maximum)
  next layout h => simp [h]

/-- A plan consists of levels, with the root alone at the top. -/
theorem new_levels {plan : ScalarIndexPages} (h : new records maximum = .ok (some plan)) :
    ∃ start, Levels records plan.nodes start ∧ plan.nodes.length = start + 1 := by
  rcases new_total records maximum (recordFits_of_new h) with
    ⟨_, start, hok, hlevels, hsingle, -⟩ | ⟨herror, -⟩
  · rw [h, Except.ok.injEq, Option.some.injEq] at hok
    exact ⟨start, hok ▸ ⟨hlevels, hsingle⟩⟩
  · rw [h] at herror
    cases herror

end ScalarIndexPages

end Jet3
