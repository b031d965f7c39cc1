import Jet3.Row.LayoutBounds
import Jet3.Row.Writer

/-!
# Canonical row trailers

An accepted row is what the writer emits for its parts: the fixed bytes, the variable boundaries,
the variable bytes and the null bitmap. Nothing else is free, the jump bytes included.

* `jumpEntry_of_jumpValid` says that the check of a jump byte leaves one value for it;
* `ValidRow.bytes_parts` says that an accepted row is written from its parts.
-/

namespace Jet3

open Outcome

/-! ## Parts -/

/-- What a row stores: everything before its first variable boundary, or before the null bitmap
where no variable slot is stored, the boundaries, the variable fields and the null bitmap. -/
structure RowParts where
  fixed : List UInt8
  boundaries : List ℕ
  variableData : List UInt8
  bitmap : List UInt8
  deriving DecidableEq, Repr

namespace RowView

/-- The variable boundaries of a row. -/
def boundaries (view : RowView) : Except RowFault (List ℕ) :=
  if view.layout.variableCount = 0 then .ok []
  else (List.range (view.layout.variableCount + 1)).mapM (view.layout.boundary view.raw)

/-- The pieces of a row: its fixed values, its variable values, and what the trailer says of
them. -/
def parts (view : RowView) : Except RowFault RowParts := do
  let boundaries ← view.boundaries
  let start := boundaries.headD view.layout.offsetsStart
  let fixed ← sliceBytes view.raw 0 start
  let variableData ← sliceBytes view.raw start view.layout.offsetsStart
  let bitmap ← sliceBytes view.raw view.layout.nullStart view.raw.length
  return { fixed, boundaries, variableData, bitmap }

end RowView

/-- The row the writer emits for the parts. -/
def RowParts.bytes (parts : RowParts) : List UInt8 :=
  let withoutJumps := parts.fixed.length + parts.variableData.length + parts.boundaries.length + 1 +
    parts.bitmap.length
  let trailer :=
    if parts.boundaries = [] then [] else writeTrailer parts.boundaries (jumpCount withoutJumps)
  parts.fixed ++ (parts.variableData ++ (trailer ++ parts.bitmap))

namespace RowLayout

variable {row : List UInt8} {definition : TableDefinition} {layout : RowLayout}

/-- The boundaries a trailer stores. -/
def boundaryList (layout : RowLayout) (row : List UInt8) : List ℕ :=
  (List.range (layout.variableCount + 1)).map (layout.boundaryAt row)

/-! ## Jump bytes -/

/-- The first boundary at or above a threshold. -/
theorem findIdx?_boundaryList {threshold ordinal : ℕ} (hordinal : ordinal ≤ layout.variableCount)
    (hfirst : threshold ≤ layout.boundaryAt row ordinal)
    (hbefore : ∀ other < ordinal, layout.boundaryAt row other < threshold) :
    (layout.boundaryList row).findIdx? (fun boundary => boundary ≥ threshold) = some ordinal := by
  have hlen : (layout.boundaryList row).length = layout.variableCount + 1 := by
    rw [boundaryList, List.length_map, List.length_range]
  rw [List.findIdx?_eq_some_iff_getElem]
  refine ⟨by omega, ?_, fun other hother => ?_⟩
  · simpa [boundaryList] using hfirst
  · simpa [boundaryList] using hbefore other hother

/-- No boundary reaches a threshold above all of them. -/
theorem findIdx?_boundaryList_eq_none {threshold : ℕ}
    (hall : ∀ ordinal ≤ layout.variableCount, layout.boundaryAt row ordinal < threshold) :
    (layout.boundaryList row).findIdx? (fun boundary => boundary ≥ threshold) = none := by
  rw [List.findIdx?_eq_none_iff]
  intro boundary hboundary
  obtain ⟨ordinal, hordinal, rfl⟩ := List.mem_map.mp hboundary
  have := hall ordinal (Nat.lt_succ_iff.mp (List.mem_range.mp hordinal))
  simpa using this

/-- The check of a jump byte leaves one value for it. -/
theorem jumpEntry_of_jumpValid {required : RowRequirement} {nullStart block : ℕ} {jump : UInt8}
    (h : VariableRow row definition required nullStart layout)
    (hjump : layout.JumpValid row (256 * block) jump) :
    jumpEntry (layout.boundaryList row) block = jump := by
  have hmono : ∀ {i j : ℕ}, i ≤ j → j ≤ layout.variableCount →
      layout.boundaryAt row i ≤ layout.boundaryAt row j := fun hij hj =>
    boundaryAt_le_of_mono h.mono hij hj
  unfold JumpValid at hjump
  by_cases hunused : jump = unusedJump
  · rw [if_pos hunused] at hjump
    subst hunused
    by_cases hend : layout.offsetsStart < 256 * block
    · -- every boundary lies below the threshold
      have hall : ∀ ordinal ≤ layout.variableCount, layout.boundaryAt row ordinal <
        256 * block := by
        intro ordinal hordinal
        have := hmono hordinal le_rfl
        rw [h.last] at this
        omega
      rw [jumpEntry, findIdx?_boundaryList_eq_none hall]
      rfl
    · -- only the final boundary reaches the threshold, and its ordinal is the marker
      obtain ⟨hcount, hbefore⟩ := hjump.resolve_left hend
      have hfirst : (layout.boundaryList row).findIdx? (fun boundary => boundary ≥ 256 * block) =
          some 255 := by
        refine findIdx?_boundaryList (by omega) ?_ fun other hother => ?_
        · rw [boundaryAt, if_pos rfl]
          omega
        · exact (hmono (show other ≤ 254 by omega) (by omega)).trans_lt hbefore
      rw [jumpEntry, hfirst]
      rfl
  · rw [if_neg hunused] at hjump
    obtain ⟨hle, hfirst, hbefore⟩ := hjump
    rw [jumpEntry, findIdx?_boundaryList hle hfirst]
    · exact UInt8.ofNat_toNat
    · intro other hother
      rcases hbefore with hzero | hbefore
      · rw [hzero] at hother
        exact absurd hother (Nat.not_lt_zero other)
      · exact (hmono (show other ≤ jump.toNat - 1 by omega) (by omega)).trans_lt hbefore

/-- The jump bytes of an accepted row are those the writer emits for its boundaries. -/
theorem jumpList_eq_jumpEntries {required : RowRequirement} {nullStart : ℕ}
    (h : VariableRow row definition required nullStart layout) (hnull : nullStart ≤ row.length) :
    layout.jumpList row = jumpEntries (layout.boundaryList row) layout.jumps := by
  have hlen := (h.trailer.located hnull).length_jumpList
  refine List.ext_getElem ?_ fun position hposition _ => ?_
  · rw [hlen, jumpEntries, List.length_map, List.length_reverse, List.length_range]
  · have hjump := h.jump position (hlen ▸ hposition) _ (List.getElem?_eq_getElem hposition)
    rw [hlen] at hposition
    have hblock : layout.jumps - 1 - position + 1 = layout.jumps - position := by omega
    simp only [jumpEntries, List.getElem_map, List.getElem_reverse, List.getElem_range,
      List.length_range, hblock]
    exact (jumpEntry_of_jumpValid h hjump).symm

/-! ## Low bytes -/

/-- A low byte is the one the writer emits for its boundary. -/
theorem ofNat_boundaryAt {required : RowRequirement} {nullStart ordinal : ℕ}
    (h : VariableRow row definition required nullStart layout)
    (hordinal : ordinal ≤ layout.variableCount) (hcount : layout.variableCount ≤ 255) :
    UInt8.ofNat (layout.boundaryAt row ordinal % 256) = layout.lowByte row ordinal := by
  by_cases hlast : ordinal = 255
  · -- the trailer locates the final boundary, and its low byte was checked
    have hcount' : layout.variableCount = 255 := by omega
    rw [boundaryAt, if_pos hlast, ← h.finalLow hcount', UInt8.ofNat_toNat, lowByte, hcount', hlast]
    rfl
  · have hlow := (layout.lowByte row ordinal).toNat_lt
    rw [boundaryAt, if_neg hlast, Nat.add_mul_mod_self_left, Nat.mod_eq_of_lt hlow,
      UInt8.ofNat_toNat]

/-- The low bytes of the boundaries, from the last one to the first. -/
theorem lowBytes_eq {required : RowRequirement} {nullStart : ℕ}
    (h : VariableRow row definition required nullStart layout) (hnull : nullStart ≤ row.length) :
    (layout.boundaryList row).reverse.map (fun boundary => UInt8.ofNat (boundary % 256)) =
      (row.drop layout.offsetsStart).take (layout.variableCount + 1) := by
  have hposition := h.trailer.position
  have hcount := (h.trailer.located hnull).variableCount_le
  refine List.ext_getElem ?_ fun position hleft hright => ?_
  · rw [List.length_map, List.length_reverse, boundaryList, List.length_map, List.length_range,
      List.length_take, List.length_drop]
    omega
  · have hle : position ≤ layout.variableCount := by
      rw [List.length_take] at hright
      omega
    have hback : layout.variableCount - (layout.variableCount - position) = position := by omega
    have hindex : layout.offsetsStart + position < row.length := by omega
    have hlow := ofNat_boundaryAt h (Nat.sub_le layout.variableCount position) hcount
    rw [lowByte, hback, byteAt, List.getD_eq_getElem?_getD, List.getElem?_eq_getElem hindex] at hlow
    simpa [boundaryList] using hlow

/-! ## Accepted rows -/

/-- The trailer of an accepted row is the one the writer emits for its boundaries. -/
theorem writeTrailer_eq {required : RowRequirement} {nullStart : ℕ}
    (h : VariableRow row definition required nullStart layout) (hnull : nullStart ≤ row.length) :
    writeTrailer (layout.boundaryList row) layout.jumps =
      (row.drop layout.offsetsStart).take (nullStart - layout.offsetsStart) := by
  have hposition := h.trailer.position
  have hlen : (layout.boundaryList row).length = layout.variableCount + 1 := by
    rw [boundaryList, List.length_map, List.length_range]
  have hcount : [UInt8.ofNat ((layout.boundaryList row).length - 1)] =
      (row.drop (nullStart - 1)).take 1 := by
    have hindex : nullStart - 1 < row.length := by omega
    rw [hlen, Nat.add_sub_cancel, h.trailer.variableCount_eq, UInt8.ofNat_toNat,
      List.drop_eq_getElem_cons hindex, byteAt, List.getD_eq_getElem?_getD,
      List.getElem?_eq_getElem hindex]
    rfl
  rw [writeTrailer, lowBytes_eq h hnull, ← jumpList_eq_jumpEntries h hnull, hcount, jumpList]
  -- the three parts follow each other up to the null bitmap
  have hsplit : nullStart - layout.offsetsStart =
      layout.variableCount + 1 + (layout.jumps + 1) := by omega
  have hlast : nullStart - 1 = layout.offsetsStart + (layout.variableCount + 1) + layout.jumps := by
    omega
  rw [hsplit, List.take_add (i := layout.variableCount + 1) (j := layout.jumps + 1),
    List.take_add (i := layout.jumps) (j := 1), List.drop_drop, List.drop_drop, hlast]
  rfl

/-- All boundaries of a row can be read. -/
theorem mapM_boundary {required : RowRequirement} {nullStart : ℕ}
    (h : VariableRow row definition required nullStart layout) (hnull : nullStart ≤ row.length) :
    (List.range (layout.variableCount + 1)).mapM (layout.boundary row) =
      .ok (layout.boundaryList row) :=
  mapM_eq_ok_map fun _ hordinal => (h.trailer.located hnull).boundary_eq
    (Nat.lt_succ_iff.mp (List.mem_range.mp hordinal))

/-- An accepted row is written from its parts, and its jump bytes from its boundaries. -/
theorem ValidRow.bytes_parts (h : ValidRow row definition layout) :
    ∃ parts, RowView.parts ⟨row, definition, layout⟩ = .ok parts ∧ parts.bytes = row ∧
      (0 < layout.variableCount →
        layout.jumpBytes row = .ok (jumpEntries parts.boundaries layout.jumps)) := by
  obtain ⟨-, hfixed, hoffsets, -⟩ := h.bounds
  have hnull : layout.nullStart ≤ row.length := by
    have := h.nullStart_eq
    omega
  rcases Nat.eq_zero_or_pos layout.variableCount with hzero | hpos
  · -- no slot is stored: everything before the bitmap counts as fixed
    have hend : layout.offsetsStart = layout.nullStart := by
      have hshape := h.shape
      split at hshape
      next =>
        simp only [validateFixedOnly, bind_ok_iff, exists_unit, pure_ok_iff] at hshape
        obtain ⟨-, heq⟩ := hshape
        rw [← heq]
      next hminimum =>
        have := hshape.trailer.minimum_le
        omega
    refine ⟨{ fixed := row.take layout.nullStart, boundaries := [], variableData := []
              bitmap := row.drop layout.nullStart }, ?_, ?_, fun hcount => by omega⟩
    · simp only [RowView.parts, RowView.boundaries, hzero, if_true, hend, List.headD_nil,
        bind_ok_iff, sliceBytes_eq (Nat.zero_le _) hnull, sliceBytes_eq le_rfl hnull,
        sliceBytes_eq hnull le_rfl, Except.ok.injEq, exists_eq_left', pure_ok_iff, List.drop_zero,
        Nat.sub_zero, Nat.sub_self, List.take_zero]
      rw [← List.length_drop, List.take_length]
    · rw [RowParts.bytes]
      exact List.take_append_drop _ _
  · have hrow := h.variableRow hpos
    have hstart : layout.boundaryAt row 0 ≤ layout.offsetsStart := by
      rw [← hrow.last]
      exact boundaryAt_le_of_mono hrow.mono (Nat.zero_le _) le_rfl
    have hlist : ∃ rest, layout.boundaryList row = layout.boundaryAt row 0 :: rest := by
      rw [boundaryList, List.range_succ_eq_map]
      exact ⟨_, rfl⟩
    obtain ⟨rest, hcons⟩ := hlist
    refine ⟨{ fixed := row.take (layout.boundaryAt row 0), boundaries := layout.boundaryList row
              variableData := (row.drop (layout.boundaryAt row 0)).take
                (layout.offsetsStart - layout.boundaryAt row 0)
              bitmap := row.drop layout.nullStart }, ?_, ?_, fun _ => ?_⟩
    · simp only [RowView.parts, RowView.boundaries, if_neg (Nat.pos_iff_ne_zero.mp hpos),
        mapM_boundary hrow hnull, bind_ok_iff, Except.ok.injEq, exists_eq_left', hcons,
        List.headD_cons, sliceBytes_eq (Nat.zero_le _) (hstart.trans (hoffsets.trans hnull)),
        sliceBytes_eq hstart (hoffsets.trans hnull), sliceBytes_eq hnull le_rfl, pure_ok_iff,
        List.drop_zero, Nat.sub_zero]
      rw [← List.length_drop, List.take_length]
    · have hlen : (layout.boundaryList row).length = layout.variableCount + 1 := by
        rw [boundaryList, List.length_map, List.length_range]
      have hposition := hrow.trailer.position
      have hwithout : (row.take (layout.boundaryAt row 0)).length +
          ((row.drop (layout.boundaryAt row 0)).take
            (layout.offsetsStart - layout.boundaryAt row 0)).length +
          (layout.boundaryList row).length + 1 + (row.drop layout.nullStart).length =
          row.length - layout.jumps := by
        rw [hlen, List.length_take, List.length_take, List.length_drop, List.length_drop]
        omega
      have hne : layout.boundaryList row ≠ [] := by rw [hcons]; exact List.cons_ne_nil _ _
      rw [RowParts.bytes]
      dsimp only
      rw [if_neg hne, hwithout, hrow.trailer.jumpCount_eq, writeTrailer_eq hrow hnull]
      -- the four slices cover the row
      have htail : (row.drop layout.offsetsStart).take (layout.nullStart - layout.offsetsStart) ++
          row.drop layout.nullStart = row.drop layout.offsetsStart := by
        have := List.take_append_drop (layout.nullStart - layout.offsetsStart)
          (row.drop layout.offsetsStart)
        rwa [List.drop_drop, Nat.add_sub_cancel' hoffsets] at this
      have hmiddle : (row.drop (layout.boundaryAt row 0)).take
            (layout.offsetsStart - layout.boundaryAt row 0) ++ row.drop layout.offsetsStart =
          row.drop (layout.boundaryAt row 0) := by
        have := List.take_append_drop (layout.offsetsStart - layout.boundaryAt row 0)
          (row.drop (layout.boundaryAt row 0))
        rwa [List.drop_drop, Nat.add_sub_cancel' hstart] at this
      rw [htail, hmiddle, List.take_append_drop]
    · rw [(hrow.trailer.located hnull).jumpBytes_eq, jumpList_eq_jumpEntries hrow hnull]

end RowLayout

/-- An accepted row has the jump bytes the writer emits for its boundaries, and no other accepted
row has the same parts. -/
theorem rowTrailer_canonical (row : List UInt8) (definition : TableDefinition) (layout : RowLayout)
    (hvalid : RowLayout.validate row definition = .ok layout) :
    ∃ parts, RowView.parts ⟨row, definition, layout⟩ = .ok parts ∧
      (0 < layout.variableCount →
        layout.jumpBytes row = .ok (jumpEntries parts.boundaries layout.jumps)) ∧
      ∀ row' layout', RowLayout.validate row' definition = .ok layout' →
        RowView.parts ⟨row', definition, layout'⟩ = .ok parts → row' = row := by
  obtain ⟨parts, hparts, hbytes, hjumps⟩ := (RowLayout.validate_ok_iff.mp hvalid).bytes_parts
  refine ⟨parts, hparts, hjumps, fun row' layout' hvalid' hparts' => ?_⟩
  obtain ⟨other, hother, hbytes', -⟩ := (RowLayout.validate_ok_iff.mp hvalid').bytes_parts
  have heq : other = parts := Except.ok.inj (hother.symm.trans hparts')
  rw [← hbytes', heq, hbytes]

/-- A row whose text of 255 characters ends in the second block of 256 bytes. -/
def longTextRow : List UInt8 :=
  [2, 1, 0, 0, 0] ++ List.replicate 255 0x41 ++ [4, 5, 1, 1, 3]

/-- The layout of a row with one jump byte. -/
def longTextLayout : RowLayout :=
  { fixedBoundary := 5, offsetsStart := 260, nullStart := 264, columnCount := 2, variableCount := 1
    jumps := 1 }

/-- The row has the one jump byte the writer emits, and is the only one with its parts. -/
theorem rowTrailer_canonical_text :
    ∃ definition parts, RowLayout.validate longTextRow definition = .ok longTextLayout ∧
      RowView.parts ⟨longTextRow, definition, longTextLayout⟩ = .ok parts ∧
      longTextLayout.jumpBytes longTextRow = .ok [1] ∧ jumpEntries parts.boundaries 1 = [1] ∧
      ∀ row layout, RowLayout.validate row definition = .ok layout →
        RowView.parts ⟨row, definition, layout⟩ = .ok parts → row = longTextRow := by
  obtain ⟨definition, -, hrow⟩ := exists_ok_and
    (x := decodeDefinition textDefinition 6 ⟨⟨7, 0⟩, ⟨7, 1⟩⟩ 9)
    (p := fun definition => RowLayout.validate longTextRow definition = .ok longTextLayout)
    (by decide +kernel)
  obtain ⟨parts, hparts, hjumps, hunique⟩ :=
    rowTrailer_canonical longTextRow definition longTextLayout (of_decide_eq_true hrow)
  have hstored : longTextLayout.jumpBytes longTextRow = .ok [1] := by decide +kernel
  have hemitted : jumpEntries parts.boundaries 1 = [1] :=
    Except.ok.inj ((hjumps (by decide)).symm.trans hstored)
  exact ⟨definition, parts, of_decide_eq_true hrow, hparts, hstored, hemitted, hunique⟩

/-! ## Dropped columns -/

/-- The definition of a table with a Long column whose second column, a Text one, was dropped. -/
def droppedTextDefinition : List UInt8 :=
  List.replicate 20 0 ++ [0x4e, 2, 0, 1, 0, 1, 0, 0, 0, 0, 0, 0, 0] ++ List.replicate 10 0 ++
    [4, 0, 0, 0, 0, 0, 0, 1, 0, 0x09, 0x04, 0xe4, 0x04, 3, 0, 0, 4, 0] ++ [2, 0x49, 0x64] ++
    terminator

/-- A row from before the drop, with the low byte of the final boundary of its Text field. -/
def staleRow (low : UInt8) : List UInt8 :=
  [2, 1, 0, 0, 0, 0x48, 0x69, low, 5, 1, 3]

/-- The layout of a row that has no variable column yet. -/
def staleLayout : RowLayout :=
  { fixedBoundary := 5, offsetsStart := 10, nullStart := 10, columnCount := 2, variableCount := 0
    jumps := 0 }

/-- Without a live variable column the trailer of an older row is not read: rows that differ in it
only are both accepted. -/
theorem staleRow_accepted :
    ∃ definition, decodeDefinition droppedTextDefinition 6 ⟨⟨7, 0⟩, ⟨7, 1⟩⟩ 9 = .ok definition ∧
      RowLayout.validate (staleRow 7) definition = .ok staleLayout ∧
      RowLayout.validate (staleRow 9) definition = .ok staleLayout ∧
      (staleRow 7).length = (staleRow 9).length ∧
      RowView.boundaries ⟨staleRow 7, definition, staleLayout⟩ = .ok [] ∧
      RowView.boundaries ⟨staleRow 9, definition, staleLayout⟩ = .ok [] ∧
      (staleRow 7).take staleLayout.fixedBoundary = (staleRow 9).take staleLayout.fixedBoundary ∧
      (staleRow 7).drop staleLayout.nullStart = (staleRow 9).drop staleLayout.nullStart ∧
      staleRow 7 ≠ staleRow 9 := by
  obtain ⟨definition, hdefinition, hrows⟩ := exists_ok_and
    (x := decodeDefinition droppedTextDefinition 6 ⟨⟨7, 0⟩, ⟨7, 1⟩⟩ 9)
    (p := fun definition => RowLayout.validate (staleRow 7) definition = .ok staleLayout ∧
      RowLayout.validate (staleRow 9) definition = .ok staleLayout) (by decide +kernel)
  obtain ⟨hold, hnew⟩ := of_decide_eq_true hrows
  exact ⟨definition, hdefinition, hold, hnew, rfl, rfl, rfl, rfl, rfl, by decide⟩

end Jet3
