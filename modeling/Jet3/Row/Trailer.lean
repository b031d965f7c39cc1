import Jet3.Library.Lookup
import Jet3.Row.ReaderLayout

/-!
# Row trailers

What a located trailer gives: every boundary of the row can be read, and the boundaries of an
accepted row do not decrease.

* `boundaryAt` is the boundary a trailer stores, and `boundary_eq` says that reading it does not
  fail;
* `VariableRow` collects what the validation of a row with a live variable column establishes.
-/

namespace Jet3

open Outcome

/-- A byte inside the row is read. -/
theorem indexByte_eq {row : List UInt8} {index : ℕ} (h : index < row.length) :
    indexByte row index = .ok (byteAt row index) := by
  rw [indexByte, List.getElem?_eq_getElem h, byteAt, List.getD_eq_getElem?_getD,
    List.getElem?_eq_getElem h]
  rfl

/-- Bytes inside the row are read. -/
theorem sliceBytes_eq {row : List UInt8} {start stop : ℕ} (h : start ≤ stop)
    (hstop : stop ≤ row.length) :
    sliceBytes row start stop = .ok ((row.drop start).take (stop - start)) :=
  if_pos ⟨h, hstop⟩

theorem subtract_eq {a b : ℕ} (h : b ≤ a) : subtract a b = .ok (a - b) :=
  if_pos h

theorem succByte_eq {a : ℕ} (h : a < 255) : succByte a = .ok (a + 1) :=
  if_pos (by omega)

@[simp]
theorem subtract_ok_iff {a b c : ℕ} : subtract a b = .ok c ↔ b ≤ a ∧ a - b = c := by
  unfold subtract
  split <;> simp [*]

/-! ## Requirements -/

theorem le_maximum {numbers : List ℕ} {n : ℕ} (h : n ∈ numbers) : n ≤ maximum numbers := by
  induction numbers with
  | nil => simp at h
  | cons first numbers ih =>
    rw [maximum, List.foldr_cons]
    rcases List.mem_cons.mp h with rfl | h
    · exact Nat.le_max_left _ _
    · exact (ih h).trans (Nat.le_max_right _ _)

theorem maximum_le {numbers : List ℕ} {bound : ℕ} (h : ∀ n ∈ numbers, n ≤ bound) :
    maximum numbers ≤ bound := by
  induction numbers with
  | nil => exact Nat.zero_le _
  | cons first numbers ih =>
    rw [maximum, List.foldr_cons]
    exact Nat.max_le.mpr ⟨h first List.mem_cons_self, ih fun n hn =>
      h n (List.mem_cons_of_mem _ hn)⟩

/-- A stored fixed column ends at or before the fixed boundary. -/
theorem fixedEnd_le {definition : TableDefinition} {columnCount : ℕ} {column : ColumnDefinition}
    (hmem : column ∈ definition.columns) (hstored : column.storageOrdinal < columnCount)
    {offset : ℕ}
    (hstorage : column.storage = .fixed offset) (htype : column.physicalType ≠ .boolean) :
    1 + offset + column.size ≤ (rowRequirement definition columnCount).fixedBoundary := by
  have hcolumn : column ∈ storedColumns definition columnCount :=
    List.mem_filter.mpr ⟨hmem, decide_eq_true hstored⟩
  have hend : column.fixedEnd = some (offset + column.size) := by
    rw [ColumnDefinition.fixedEnd, hstorage]
    exact if_pos htype
  have := le_maximum (List.mem_filterMap.mpr ⟨column, hcolumn, hend⟩)
  rw [rowRequirement]
  dsimp only
  omega

/-- The slot counts of a definition's columns fit a byte. -/
def TableDefinition.SlotsFit (definition : TableDefinition) : Prop :=
  ∀ column ∈ definition.columns, ∀ index, column.storage = .variable index → index < 255

/-- A stored variable column has one of the required slots. -/
theorem lt_minimumVariables {definition : TableDefinition} (hfit : definition.SlotsFit)
    {columnCount : ℕ} {column : ColumnDefinition} (hmem : column ∈ definition.columns)
    (hstored : column.storageOrdinal < columnCount) {index : ℕ}
    (hstorage : column.storage = .variable index) :
    index < (rowRequirement definition columnCount).minimumVariables := by
  have hcolumn : column ∈ storedColumns definition columnCount :=
    List.mem_filter.mpr ⟨hmem, decide_eq_true hstored⟩
  have hend : column.variableEnd = some (index + 1) := by
    rw [ColumnDefinition.variableEnd, hstorage]
  have hle := le_maximum (List.mem_filterMap.mpr ⟨column, hcolumn, hend⟩)
  have hlt : maximum ((storedColumns definition columnCount).filterMap
      ColumnDefinition.variableEnd) ≤ 255 := by
    refine maximum_le fun n hn => ?_
    obtain ⟨other, hother, hn⟩ := List.mem_filterMap.mp hn
    rw [ColumnDefinition.variableEnd] at hn
    split at hn
    next => cases hn
    next slot hslot =>
      cases hn
      exact Nat.succ_le_of_lt (hfit other (List.mem_filter.mp hother).1 slot hslot)
  rw [rowRequirement]
  dsimp only
  rw [Nat.mod_eq_of_lt (by omega)]
  omega

namespace RowLayout

variable {layout : RowLayout} {row : List UInt8}

/-! ## Boundaries -/

/-- The jump bytes of a trailer. -/
def jumpList (layout : RowLayout) (row : List UInt8) : List UInt8 :=
  (row.drop (layout.offsetsStart + layout.variableCount + 1)).take layout.jumps

/-- The low byte of a boundary. -/
def lowByte (layout : RowLayout) (row : List UInt8) (ordinal : ℕ) : UInt8 :=
  byteAt row (layout.offsetsStart + (layout.variableCount - ordinal))

/-- The boundary a trailer stores. -/
def boundaryAt (layout : RowLayout) (row : List UInt8) (ordinal : ℕ) : ℕ :=
  if ordinal = 255 then layout.offsetsStart
  else (layout.lowByte row ordinal).toNat +
    256 * (layout.jumpList row).countP fun jump => jump ≠ unusedJump ∧ ordinal ≥ jump.toNat

/-- A trailer that lies between its offsets and the null bitmap. -/
structure Located (layout : RowLayout) (row : List UInt8) : Prop where
  variableCount_le : layout.variableCount ≤ 255
  nullStart_eq : layout.nullStart =
    layout.offsetsStart + (layout.variableCount + 1 + layout.jumps) + 1
  nullStart_le : layout.nullStart ≤ row.length

/-- The jump bytes of a located trailer. -/
theorem Located.jumpBytes_eq (h : Located layout row) :
    layout.jumpBytes row = .ok (layout.jumpList row) := by
  have hstop := h.nullStart_eq
  have hle := h.nullStart_le
  rw [jumpBytes, sliceBytes_eq (Nat.le_add_right _ _) (by omega), Nat.add_sub_cancel_left]
  rfl

theorem Located.length_jumpList (h : Located layout row) :
    (layout.jumpList row).length = layout.jumps := by
  have hstop := h.nullStart_eq
  have hle := h.nullStart_le
  rw [jumpList, List.length_take, List.length_drop]
  omega

/-- A boundary of a located trailer is read. -/
theorem Located.boundary_eq (h : Located layout row) {ordinal : ℕ}
    (hordinal : ordinal ≤ layout.variableCount) :
    layout.boundary row ordinal = .ok (layout.boundaryAt row ordinal) := by
  have hstop := h.nullStart_eq
  have hle := h.nullStart_le
  unfold boundary boundaryAt
  split
  next => rfl
  next =>
    have hindex : layout.offsetsStart + (layout.variableCount - ordinal) < row.length := by omega
    simp only [subtract_eq hordinal, indexByte_eq hindex, h.jumpBytes_eq, bind_ok_iff,
      Except.ok.injEq, exists_eq_left', pure_ok_iff]
    rfl

/-- What makes a jump entry valid for its threshold. -/
def JumpValid (layout : RowLayout) (row : List UInt8) (threshold : ℕ) (jump : UInt8) : Prop :=
  if jump = unusedJump then
    layout.offsetsStart < threshold ∨
      (layout.variableCount = 255 ∧ layout.boundaryAt row 254 < threshold)
  else
    jump.toNat ≤ layout.variableCount ∧ threshold ≤ layout.boundaryAt row jump.toNat ∧
      (jump = 0 ∨ layout.boundaryAt row (jump.toNat - 1) < threshold)

/-- A jump entry is checked without reading outside the row. -/
theorem Located.jumpValid_ok (h : Located layout row) (threshold : ℕ) (jump : UInt8) :
    ∃ valid, layout.jumpValid row threshold jump = .ok valid ∧
      (valid = true ↔ layout.JumpValid row threshold jump) := by
  unfold jumpValid JumpValid
  by_cases hunused : jump = unusedJump
  · rw [if_pos hunused, if_pos hunused]
    by_cases hend : layout.offsetsStart < threshold
    · exact ⟨true, if_pos hend, by simp [hend]⟩
    · rw [if_neg hend]
      by_cases hcount : layout.variableCount = 255
      · rw [if_pos hcount, h.boundary_eq (by omega)]
        exact ⟨_, rfl, by simp [hend, hcount]⟩
      · exact ⟨false, if_neg hcount, by simp [hend, hcount]⟩
  · rw [if_neg hunused, if_neg hunused]
    by_cases hle : jump.toNat ≤ layout.variableCount
    · rw [if_pos hle, h.boundary_eq hle]
      simp only [bind, Except.bind]
      by_cases hfirst : threshold ≤ layout.boundaryAt row jump.toNat
      · rw [if_pos hfirst]
        by_cases hzero : jump = 0
        · exact ⟨true, if_pos hzero, fun _ => ⟨hle, hfirst, Or.inl hzero⟩, fun _ => rfl⟩
        · rw [if_neg hzero, h.boundary_eq (by omega)]
          exact ⟨_, rfl, by simp only [hle, hfirst, hzero, true_and, false_or, decide_eq_true_eq]⟩
      · exact ⟨false, if_neg hfirst, by simp [hfirst]⟩
    · exact ⟨false, if_neg hle, by simp [hle]⟩

/-! ## Rows with a variable column -/

/-- The trailer of a row, located from the null bitmap. -/
structure TrailerAt (row : List UInt8) (definition : TableDefinition) (required : RowRequirement)
    (nullStart : ℕ) (layout : RowLayout) : Prop where
  fixedBoundary_eq : layout.fixedBoundary = required.fixedBoundary
  columnCount_eq : layout.columnCount = required.columnCount
  nullStart_eq : layout.nullStart = nullStart
  position : layout.offsetsStart + (layout.variableCount + 1 + layout.jumps) + 1 = nullStart
  variableCount_eq : layout.variableCount = (byteAt row (nullStart - 1)).toNat
  minimum_le : required.minimumVariables ≤ layout.variableCount
  storage_le : layout.variableCount ≤ definition.storageVariableCount
  columns_le : layout.variableCount ≤ required.columnCount
  exact : required.deleted = false → layout.variableCount = required.minimumVariables
  jumps_eq : layout.jumps = (row.length - 1) / 256
  jumpCount_eq : jumpCount (row.length - layout.jumps) = layout.jumps

/-- The trailer is found where its count, its boundaries and its jump bytes fit the row. -/
theorem locateTrailer_ok_iff {definition : TableDefinition} {required : RowRequirement}
    {nullStart : ℕ} (hrow : 1 ≤ row.length) (hnull : nullStart ≤ row.length) :
    locateTrailer row definition required nullStart = .ok layout ↔
      TrailerAt row definition required nullStart layout := by
  by_cases hpos : 1 ≤ nullStart
  · have hjumps : (row.length - 1) / 256 ≤ row.length := by omega
    simp only [locateTrailer, indexByte_eq (show nullStart - 1 < row.length by omega),
      subtract_eq hrow, subtract_eq hjumps, bind_ok_iff, exists_unit, refuseIf_ok_iff,
      Except.ok.injEq, exists_eq_left', pure_ok_iff, not_or, not_and, not_lt, not_not, gt_iff_lt,
      Bool.not_eq_true]
    constructor
    · rintro ⟨-, ⟨hmin, hstorage, hcolumns, hexact⟩, hcount, htrailer, rfl⟩
      refine ⟨rfl, rfl, rfl, ?_, rfl, hmin, hstorage, hcolumns, hexact, rfl, hcount⟩
      dsimp only
      omega
    · rintro ⟨hfixed, hcolumn, hnullStart, hposition, hvariable, hmin, hstorage, hcolumns, hexact,
        hjumpsEq, hcount⟩
      rw [hvariable] at hposition hmin hstorage hcolumns hexact
      rw [hjumpsEq] at hposition hcount
      refine ⟨hpos, ⟨hmin, hstorage, hcolumns, hexact⟩, hcount, by omega, ?_⟩
      rcases layout with ⟨fixed, offsets, null, columns, variableCount, jumps⟩
      dsimp only at hfixed hcolumn hnullStart hvariable hjumpsEq hposition
      subst hfixed hcolumn hnullStart hvariable hjumpsEq
      congr 1
      omega
  · constructor
    · intro h
      simp only [locateTrailer, bind_ok_iff, exists_unit, refuseIf_ok_iff, not_lt] at h
      exact absurd h.1 hpos
    · intro h
      have := h.position
      omega

/-- A trailer that was found is inside the row. -/
theorem TrailerAt.located {definition : TableDefinition} {required : RowRequirement}
    {nullStart : ℕ} (h : TrailerAt row definition required nullStart layout)
    (hnull : nullStart ≤ row.length) : layout.Located row where
  variableCount_le := by
    rw [h.variableCount_eq]
    exact Nat.lt_succ_iff.mp (byteAt row (nullStart - 1)).toNat_lt
  nullStart_eq := by rw [h.nullStart_eq, h.position]
  nullStart_le := by rw [h.nullStart_eq]; exact hnull

/-- What the validation of a row with a live variable column establishes. -/
structure VariableRow (row : List UInt8) (definition : TableDefinition) (required : RowRequirement)
    (nullStart : ℕ) (layout : RowLayout) : Prop where
  trailer : TrailerAt row definition required nullStart layout
  finalLow : layout.variableCount = 255 →
    (byteAt row layout.offsetsStart).toNat = layout.offsetsStart % 256
  fixed_le : required.fixedBoundary ≤ layout.boundaryAt row 0
  fixed_exact : required.deleted = false → layout.boundaryAt row 0 = required.fixedBoundary
  mono : ∀ index < layout.variableCount,
    layout.boundaryAt row index ≤ layout.boundaryAt row (index + 1)
  last : layout.boundaryAt row layout.variableCount = layout.offsetsStart
  jump : ∀ position < layout.jumps, ∀ jump, (layout.jumpList row)[position]? = some jump →
    layout.JumpValid row (256 * (layout.jumps - position)) jump

/-- The loop over the variable fields follows boundaries that do not decrease. -/
theorem Located.checkRanges_ok_iff (h : layout.Located row) {last : ℕ} :
    (List.range layout.variableCount).foldlM (layout.checkRange row) (layout.boundaryAt row 0) =
        .ok last ↔
      last = layout.boundaryAt row layout.variableCount ∧
        ∀ index < layout.variableCount,
          layout.boundaryAt row index ≤ layout.boundaryAt row (index + 1) ∧
          layout.boundaryAt row (index + 1) ≤ layout.offsetsStart := by
  have hle := h.variableCount_le
  -- one step checks a range and gives the start of the next
  have hstep : ∀ {start index stop : ℕ}, index < layout.variableCount →
      (layout.checkRange row start index = .ok stop ↔
        stop = layout.boundaryAt row (index + 1) ∧ start ≤ layout.boundaryAt row (index + 1) ∧
          layout.boundaryAt row (index + 1) ≤ layout.offsetsStart) := by
    intro start index stop hindex
    simp only [checkRange, succByte_eq (show index < 255 by omega), h.boundary_eq hindex,
      bind_ok_iff, exists_unit, refuseIf_ok_iff, Except.ok.injEq, exists_eq_left', pure_ok_iff,
      not_or, not_lt,
      gt_iff_lt]
    constructor
    · rintro ⟨hbounds, heq⟩
      exact ⟨heq.symm, hbounds⟩
    · rintro ⟨heq, hbounds⟩
      exact ⟨hbounds, heq.symm⟩
  constructor
  · intro hloop
    have := foldlM_ok_induction (fun done stop => stop = layout.boundaryAt row done.length ∧
      ∀ index < done.length, layout.boundaryAt row index ≤ layout.boundaryAt row (index + 1) ∧
        layout.boundaryAt row (index + 1) ≤ layout.offsetsStart) ⟨rfl, by simp⟩ (by
        rintro done index rest start stop hsplit ⟨rfl, hdone⟩ hcheck
        obtain ⟨rfl, hindex⟩ := Lookup.range_split hsplit
        obtain ⟨rfl, hbounds⟩ := (hstep hindex).mp hcheck
        rw [List.length_append, List.length_singleton]
        refine ⟨rfl, fun other hother => ?_⟩
        rcases Nat.lt_succ_iff_lt_or_eq.mp hother with hlt | rfl
        · exact hdone other hlt
        · exact hbounds) hloop
    rwa [List.length_range] at this
  · rintro ⟨rfl, hbounds⟩
    obtain ⟨stop, hloop, rfl⟩ := exists_foldlM_ok (f := layout.checkRange row)
      (l := List.range layout.variableCount) (s := layout.boundaryAt row 0)
      (fun done stop => stop = layout.boundaryAt row done.length) rfl (by
        rintro done index rest start hsplit rfl
        obtain ⟨rfl, hindex⟩ := Lookup.range_split hsplit
        refine ⟨_, (hstep hindex).mpr ⟨rfl, hbounds _ hindex⟩, ?_⟩
        rw [List.length_append, List.length_singleton])
    rw [List.length_range] at hloop
    exact hloop

/-- The jump bytes are checked one by one. -/
theorem Located.checkJumps_ok_iff (h : layout.Located row) {u : PUnit} :
    forM (layout.jumpList row).zipIdx (layout.checkJump row) = .ok u ↔
      ∀ position < layout.jumps, ∀ jump, (layout.jumpList row)[position]? = some jump →
        layout.JumpValid row (256 * (layout.jumps - position)) jump := by
  have hstep : ∀ {position : ℕ} {jump : UInt8}, position < layout.jumps →
      (layout.checkJump row (jump, position) = .ok () ↔
        layout.JumpValid row (256 * (layout.jumps - position)) jump) := by
    intro position jump hposition
    obtain ⟨valid, hvalid, hiff⟩ := h.jumpValid_ok (256 * (layout.jumps - position)) jump
    simp only [checkJump, subtract_eq hposition.le, hvalid, bind_ok_iff, refuseIf_ok_iff,
      Except.ok.injEq, exists_eq_left', not_not]
    exact hiff
  rw [forM_ok_iff]
  constructor
  · intro hall position hposition jump hjump
    exact (hstep hposition).mp (hall (jump, position) (List.mem_zipIdx_iff_getElem?.mpr hjump))
  · rintro hall ⟨jump, position⟩ hmem
    have hjump := List.mem_zipIdx_iff_getElem?.mp hmem
    have hposition : position < layout.jumps := by
      rw [← h.length_jumpList]
      exact (List.getElem?_eq_some_iff.mp hjump).1
    exact (hstep hposition).mpr (hall position hposition jump hjump)

/-- Boundaries that do not decrease end at the last one. -/
theorem boundaryAt_le_of_mono {count : ℕ}
    (hmono : ∀ index < count, layout.boundaryAt row index ≤ layout.boundaryAt row (index + 1))
    {i j : ℕ} (hij : i ≤ j) (hj : j ≤ count) :
    layout.boundaryAt row i ≤ layout.boundaryAt row j := by
  induction j with
  | zero => rw [Nat.le_zero.mp hij]
  | succ j ih =>
    rcases Nat.lt_or_ge i (j + 1) with hlt | hge
    · exact (ih (Nat.lt_succ_iff.mp hlt) (Nat.le_of_succ_le hj)).trans (hmono j hj)
    · rw [Nat.le_antisymm hij hge]

/-- What a row with variable columns has to be. -/
theorem validateVariable_ok_iff {definition : TableDefinition} {required : RowRequirement}
    {nullStart : ℕ} (hrow : 1 ≤ row.length) (hnull : nullStart ≤ row.length) :
    validateVariable row definition required nullStart = .ok layout ↔
      VariableRow row definition required nullStart layout := by
  -- what is checked once the trailer has been located
  have hstep : ∀ {candidate : RowLayout}, TrailerAt row definition required nullStart candidate →
      ((do
        candidate.checkFinalLow row
        let actualFixed ← candidate.boundary row 0
        refuseIf (actualFixed < required.fixedBoundary ∨
            (¬required.deleted ∧ actualFixed ≠ required.fixedBoundary))
          (.error (.invalidFixedBoundary required.fixedBoundary actualFixed))
        let last ← (List.range candidate.variableCount).foldlM (candidate.checkRange row)
          actualFixed
        refuseIf (last ≠ candidate.offsetsStart)
          (.error (.invalidVariableBounds (candidate.variableCount - 1) last candidate.offsetsStart
            candidate.offsetsStart))
        let jumps ← candidate.jumpBytes row
        forM jumps.zipIdx (candidate.checkJump row)
        return candidate) = .ok layout ↔
        candidate = layout ∧ VariableRow row definition required nullStart candidate) := by
    intro candidate htrailer
    have hlocated := htrailer.located hnull
    have hfinal : candidate.checkFinalLow row = .ok () ↔ (candidate.variableCount = 255 →
        (byteAt row candidate.offsetsStart).toNat = candidate.offsetsStart % 256) := by
      have hindex : candidate.offsetsStart < row.length := by
        have := htrailer.position
        omega
      unfold checkFinalLow
      split
      next hcount =>
        simp only [indexByte_eq hindex, bind_ok_iff, refuseIf_ok_iff, Except.ok.injEq,
          exists_eq_left', ne_eq, not_not, hcount, true_implies]
      next hcount => exact ⟨fun _ hc => absurd hc hcount, fun _ => rfl⟩
    simp only [bind_ok_iff, exists_unit, refuseIf_ok_iff, hlocated.boundary_eq (Nat.zero_le _),
      hlocated.jumpBytes_eq, hlocated.checkRanges_ok_iff, hlocated.checkJumps_ok_iff,
      Except.ok.injEq, exists_eq_left', pure_ok_iff, hfinal, not_or, not_lt, not_and, not_not,
      ne_eq, Bool.not_eq_true]
    constructor
    · rintro ⟨hlow, ⟨hle, hexact⟩, last, ⟨rfl, hbounds⟩, hlast, hjumps, rfl⟩
      exact ⟨rfl, htrailer, hlow, hle, hexact, fun index hindex => (hbounds index hindex).1, hlast,
        hjumps⟩
    · rintro ⟨rfl, h⟩
      refine ⟨h.finalLow, ⟨h.fixed_le, h.fixed_exact⟩, _, ⟨rfl, fun index hindex => ?_⟩, h.last,
        h.jump, rfl⟩
      refine ⟨h.mono index hindex, ?_⟩
      rw [← h.last]
      exact boundaryAt_le_of_mono h.mono hindex (le_refl _)
  rw [validateVariable, bind_ok_iff]
  constructor
  · rintro ⟨candidate, hlocate, hok⟩
    obtain ⟨rfl, h⟩ := (hstep ((locateTrailer_ok_iff hrow hnull).mp hlocate)).mp hok
    exact h
  · intro h
    exact ⟨layout, (locateTrailer_ok_iff hrow hnull).mpr h.trailer, (hstep h.trailer).mpr ⟨rfl, h⟩⟩

end RowLayout

end Jet3
