import Jet3.Row.LayoutBounds
import Jet3.Row.Writer

/-!
# Written trailers

The trailer the writer emits for variable fields is read as the boundaries of these fields, whatever
their number and their lengths: the jump bytes give back what the low bytes leave out.

* `jumpEntry_le_iff` says what a jump byte decides about a boundary;
* `WrittenTrailer.boundaryAt_eq` says that each boundary is read back;
* `WrittenTrailer.variableRow` says that the checks of the reader accept the trailer.
-/

namespace Jet3

open Outcome

/-! ## Boundaries -/

/-- Where the field `i` of fields that follow each other from `start` begins. -/
def boundaryOf (start : ℕ) (fields : List (List UInt8)) (i : ℕ) : ℕ :=
  start + (fields.take i).flatten.length

variable {start : ℕ} {stored : List (List UInt8)} {i j : ℕ}

theorem length_boundariesFrom (start : ℕ) (stored : List (List UInt8)) :
    (boundariesFrom start stored).length = stored.length + 1 := by
  induction stored generalizing start with
  | nil => rfl
  | cons field stored ih => rw [boundariesFrom, List.length_cons, ih, List.length_cons]

/-- A boundary is the start of its value. -/
theorem boundariesFrom_getElem? (h : i ≤ stored.length) :
    (boundariesFrom start stored)[i]? = some (boundaryOf start stored i) := by
  induction stored generalizing start i with
  | nil =>
    rw [Nat.le_zero.mp h]
    rfl
  | cons field stored ih =>
    cases i with
    | zero => rfl
    | succ i =>
      rw [boundariesFrom, List.getElem?_cons_succ, ih (Nat.succ_le_succ_iff.mp h), boundaryOf,
        boundaryOf, List.take_succ_cons, List.flatten_cons, List.length_append, Nat.add_assoc]

/-- The next boundary is behind the value. -/
theorem boundaryOf_succ {field : List UInt8} (h : stored[i]? = some field) :
    boundaryOf start stored (i + 1) = boundaryOf start stored i + field.length := by
  rw [boundaryOf, boundaryOf, List.take_add_one, h, Option.toList_some, List.flatten_append,
    List.length_append, List.flatten_singleton, Nat.add_assoc]

/-- Boundaries ascend. -/
theorem boundaryOf_mono (start : ℕ) (stored : List (List UInt8)) (h : i ≤ j) :
    boundaryOf start stored i ≤ boundaryOf start stored j := by
  have hsub : (stored.take i).flatten.length ≤ (stored.take j).flatten.length := by
    have hsplit := congrArg (fun fields : List (List UInt8) => fields.flatten.length)
      (List.take_append_drop i (stored.take j))
    rw [List.flatten_append, List.length_append, List.take_take, Nat.min_eq_left h] at hsplit
    omega
  exact Nat.add_le_add_left hsub start

/-- The last boundary is behind all values. -/
theorem boundaryOf_length (start : ℕ) (stored : List (List UInt8)) :
    boundaryOf start stored stored.length = start + stored.flatten.length := by
  rw [boundaryOf, List.take_length]

/-! ## Jump bytes -/

/-- What a jump byte is: the first boundary at or above its threshold, if there is one. -/
theorem jumpEntry_cases (start : ℕ) (stored : List (List UInt8)) (block : ℕ) :
    (jumpEntry (boundariesFrom start stored) block = unusedJump ∧
      ∀ i ≤ stored.length, boundaryOf start stored i < 256 * block) ∨
    ∃ k ≤ stored.length, jumpEntry (boundariesFrom start stored) block = UInt8.ofNat k ∧
      256 * block ≤ boundaryOf start stored k ∧
        ∀ i < k, boundaryOf start stored i < 256 * block := by
  unfold jumpEntry
  split
  next hnone =>
    refine .inl ⟨rfl, fun i hi => ?_⟩
    have hall := List.findIdx?_eq_none_iff.mp hnone _
      (List.mem_of_getElem? (boundariesFrom_getElem? hi))
    simpa using hall
  next k hk =>
    obtain ⟨hlt, hat, hbefore⟩ := List.findIdx?_eq_some_iff_getElem.mp hk
    have hle : k ≤ stored.length := by
      rw [length_boundariesFrom] at hlt
      omega
    have hget : ∀ i (hi : i < (boundariesFrom start stored).length),
        (boundariesFrom start stored)[i] = boundaryOf start stored i := by
      intro i hi
      have hi' : i ≤ stored.length := by
        rw [length_boundariesFrom] at hi
        omega
      exact (List.getElem?_eq_some_iff.mp (boundariesFrom_getElem? hi')).2
    refine .inr ⟨k, hle, rfl, ?_, fun i hi => ?_⟩
    · rw [hget k hlt] at hat
      simpa using hat
    · have hsmall := hbefore i hi
      rw [hget i (hi.trans hlt)] at hsmall
      simpa using hsmall

/-- A jump byte counts for a boundary exactly where the boundary reaches its threshold. -/
theorem jumpEntry_le_iff {block : ℕ} (hcount : stored.length ≤ 255) (hi : i ≤ stored.length)
    (hlast : i ≠ 255) :
    (jumpEntry (boundariesFrom start stored) block ≠ unusedJump ∧
      i ≥ (jumpEntry (boundariesFrom start stored) block).toNat) ↔
        256 * block ≤ boundaryOf start stored i := by
  rcases jumpEntry_cases start stored block with ⟨hentry, hall⟩ | ⟨k, hk, hentry, hfirst, hbefore⟩
  · rw [hentry]
    have hsmall := hall i hi
    exact iff_of_false (fun h => h.1 rfl) (by omega)
  · have hnat : (UInt8.ofNat k).toNat = k := by
      rw [UInt8.toNat_ofNat']
      omega
    rw [hentry, hnat]
    constructor
    · intro h
      exact hfirst.trans (boundaryOf_mono start stored h.2)
    · intro h
      have hki : k ≤ i := by
        by_contra hlt
        exact absurd (hbefore i (Nat.lt_of_not_le hlt)) (Nat.not_lt.mpr h)
      refine ⟨fun heq => ?_, hki⟩
      have hmarker := congrArg UInt8.toNat heq
      rw [hnat] at hmarker
      have hvalue : unusedJump.toNat = 255 := rfl
      omega

/-- The blocks of 256 bytes that end below a bound. -/
theorem countP_range_blocks (count bound : ℕ) :
    (List.range count).countP (fun block => 256 * (block + 1) ≤ bound) =
      min count (bound / 256) := by
  induction count with
  | zero => simp
  | succ count ih =>
    rw [List.range_succ, List.countP_append, ih, List.countP_singleton]
    split
    next h =>
      have hle := of_decide_eq_true h
      omega
    next h =>
      have hgt : ¬256 * (count + 1) ≤ bound := by simpa using h
      omega

/-- The jump bytes count the blocks below a boundary. -/
theorem countP_jumpEntries {jumps : ℕ} (hcount : stored.length ≤ 255) (hi : i ≤ stored.length)
    (hlast : i ≠ 255) :
    (jumpEntries (boundariesFrom start stored) jumps).countP
        (fun jump => jump ≠ unusedJump ∧ i ≥ jump.toNat) =
      min jumps (boundaryOf start stored i / 256) := by
  rw [← countP_range_blocks, jumpEntries, List.countP_map, List.countP_reverse]
  refine List.countP_congr fun block _ => ?_
  simp only [Function.comp_apply, decide_eq_true_eq]
  exact jumpEntry_le_iff hcount hi hlast

/-! ## Trailers -/

@[simp]
theorem length_jumpEntries (boundaries : List ℕ) (jumps : ℕ) :
    (jumpEntries boundaries jumps).length = jumps := by
  rw [jumpEntries, List.length_map, List.length_reverse, List.length_range]

/-- The row has the trailer of the fields `stored` where the layout says. -/
structure WrittenTrailer (start : ℕ) (stored : List (List UInt8)) (row : List UInt8)
    (layout : RowLayout) : Prop where
  count_eq : layout.variableCount = stored.length
  count_le : stored.length ≤ 255
  offsets_eq : layout.offsetsStart = start + stored.flatten.length
  null_eq : layout.nullStart = layout.offsetsStart + (layout.variableCount + 1 + layout.jumps) + 1
  null_le : layout.nullStart ≤ row.length
  jumps_eq : layout.jumps = (row.length - 1) / 256
  trailer_eq : (row.drop layout.offsetsStart).take (stored.length + 1 + (layout.jumps + 1)) =
    writeTrailer (boundariesFrom start stored) layout.jumps

namespace WrittenTrailer

variable {row : List UInt8} {layout : RowLayout}

/-- A written trailer is inside its row. -/
theorem located (h : WrittenTrailer start stored row layout) : layout.Located row :=
  ⟨by rw [h.count_eq]; exact h.count_le, h.null_eq, h.null_le⟩

/-- A byte of the trailer. -/
theorem byteAt_trailer (h : WrittenTrailer start stored row layout) {k : ℕ} {byte : UInt8}
    (hk : k < stored.length + 1 + (layout.jumps + 1))
    (hbyte : (writeTrailer (boundariesFrom start stored) layout.jumps)[k]? = some byte) :
    byteAt row (layout.offsetsStart + k) = byte := by
  have hget := congrArg (fun bytes : List UInt8 => bytes[k]?) h.trailer_eq
  simp only [List.getElem?_take_of_lt hk, List.getElem?_drop, hbyte] at hget
  rw [byteAt, List.getD_eq_getElem?_getD, hget, Option.getD_some]

/-- The low bytes are those of the boundaries, the last one first. -/
theorem lowByte_eq (h : WrittenTrailer start stored row layout) (hi : i ≤ stored.length) :
    layout.lowByte row i = UInt8.ofNat (boundaryOf start stored i % 256) := by
  have hlen := length_boundariesFrom start stored
  refine h.byteAt_trailer (by rw [h.count_eq]; omega) ?_
  rw [writeTrailer, List.getElem?_append_left (by
    rw [List.length_map, List.length_reverse, hlen, h.count_eq]
    omega), List.getElem?_map, List.getElem?_reverse (by rw [hlen, h.count_eq]; omega), hlen,
      h.count_eq,
    show stored.length + 1 - 1 - (stored.length - i) = i by omega, boundariesFrom_getElem? hi]
  rfl

/-- The jump bytes that were written. -/
theorem jumpList_eq (h : WrittenTrailer start stored row layout) :
    layout.jumpList row = jumpEntries (boundariesFrom start stored) layout.jumps := by
  have hlow : ((boundariesFrom start stored).reverse.map fun boundary =>
      UInt8.ofNat (boundary % 256)).length = stored.length + 1 := by
    rw [List.length_map, List.length_reverse, length_boundariesFrom]
  have hdrop := congrArg (fun bytes : List UInt8 =>
    (bytes.drop (stored.length + 1)).take layout.jumps)
    h.trailer_eq
  rw [writeTrailer, List.drop_left' hlow, List.take_left' (length_jumpEntries _ _), List.drop_take,
    List.take_take, List.drop_drop, Nat.add_sub_cancel_left, Nat.min_eq_left (Nat.le_succ _)]
      at hdrop
  rw [RowLayout.jumpList, h.count_eq, ← hdrop, Nat.add_assoc]

/-- A boundary is at most as many blocks up as there are jump bytes. -/
theorem boundary_lt (h : WrittenTrailer start stored row layout) (hi : i ≤ stored.length) :
    boundaryOf start stored i / 256 ≤ layout.jumps := by
  have hmono := boundaryOf_mono start stored hi
  rw [boundaryOf_length, ← h.offsets_eq] at hmono
  have hnull := h.null_eq
  have hle := h.null_le
  rw [h.jumps_eq]
  exact Nat.div_le_div_right (by omega)

/-- Each boundary is read back. -/
theorem boundaryAt_eq (h : WrittenTrailer start stored row layout) (hi : i ≤ stored.length) :
    layout.boundaryAt row i = boundaryOf start stored i := by
  have hcount := h.count_le
  unfold RowLayout.boundaryAt
  split
  next hlast =>
    -- the trailer itself locates the final boundary of 255 fields
    have hlength : i = stored.length := by omega
    rw [hlength, boundaryOf_length, h.offsets_eq]
  next hlast =>
    rw [h.lowByte_eq hi, h.jumpList_eq, countP_jumpEntries hcount hi hlast,
      Nat.min_eq_right (h.boundary_lt hi), UInt8.toNat_ofNat']
    omega

/-- A jump byte the writer emits is accepted. -/
theorem jumpValid (h : WrittenTrailer start stored row layout) (block : ℕ) :
    layout.JumpValid row (256 * block) (jumpEntry (boundariesFrom start stored) block) := by
  have hcount := h.count_le
  rcases jumpEntry_cases start stored block with ⟨hentry, hall⟩ | ⟨k, hk, hentry, hfirst, hbefore⟩
  · rw [hentry, RowLayout.JumpValid, if_pos rfl, h.offsets_eq, ← boundaryOf_length]
    exact .inl (hall stored.length le_rfl)
  · have hnat : (UInt8.ofNat k).toNat = k := by
      rw [UInt8.toNat_ofNat']
      omega
    rw [hentry, RowLayout.JumpValid]
    split
    next hunused =>
      -- the ordinal of the last of 255 fields is the marker of an unused jump
      have hvalue := congrArg UInt8.toNat hunused
      rw [hnat] at hvalue
      have hmarker : unusedJump.toNat = 255 := rfl
      refine .inr ⟨by rw [h.count_eq]; omega, ?_⟩
      rw [h.boundaryAt_eq (by omega)]
      exact hbefore 254 (by omega)
    next =>
      rw [hnat, h.count_eq, h.boundaryAt_eq hk]
      refine ⟨hk, hfirst, ?_⟩
      rcases Nat.eq_zero_or_pos k with rfl | hpositive
      · exact .inl rfl
      · refine .inr ?_
        rw [h.boundaryAt_eq (by omega)]
        exact hbefore (k - 1) (by omega)

/-- The reader's checks accept the trailer of the writer. -/
theorem variableRow (h : WrittenTrailer start stored row layout) {definition : TableDefinition}
    {required : RowRequirement} (hfixed : layout.fixedBoundary = required.fixedBoundary)
    (hcolumns : layout.columnCount = required.columnCount) (hstart : start = required.fixedBoundary)
    (hminimum : required.minimumVariables = stored.length)
    (hstorage : stored.length ≤ definition.storageVariableCount)
    (hslots : stored.length ≤ required.columnCount)
    (hjumps : jumpCount (row.length - layout.jumps) = layout.jumps) :
    RowLayout.VariableRow row definition required layout.nullStart layout := by
  have hcount := h.count_eq
  have hlen := length_boundariesFrom start stored
  -- the count of variable columns is the last byte of the trailer
  have hbyte : byteAt row (layout.nullStart - 1) = UInt8.ofNat stored.length := by
    rw [h.null_eq, Nat.add_sub_cancel, hcount]
    refine h.byteAt_trailer (by omega) ?_
    rw [writeTrailer, ← List.append_assoc, List.getElem?_append_right (by simp [hlen])]
    simp [hlen]
  exact
    { trailer :=
        { fixedBoundary_eq := hfixed
          columnCount_eq := hcolumns
          nullStart_eq := rfl
          position := h.null_eq.symm
          variableCount_eq := by
            rw [hbyte, UInt8.toNat_ofNat', hcount, Nat.mod_eq_of_lt (Nat.lt_succ_of_le h.count_le)]
          minimum_le := by rw [hminimum, hcount]
          storage_le := by rw [hcount]; exact hstorage
          columns_le := by rw [hcount]; exact hslots
          exact := fun _ => by rw [hminimum, hcount]
          jumps_eq := h.jumps_eq
          jumpCount_eq := hjumps }
      finalLow := fun _ => by
        have hlow := h.lowByte_eq le_rfl
        rw [RowLayout.lowByte, hcount, Nat.sub_self, Nat.add_zero, boundaryOf_length,
          ← h.offsets_eq] at hlow
        rw [hlow, UInt8.toNat_ofNat']
        omega
      fixed_le := by
        rw [h.boundaryAt_eq (Nat.zero_le _), ← hstart]
        exact Nat.le_add_right _ _
      fixed_exact := fun _ => by
        rw [h.boundaryAt_eq (Nat.zero_le _), ← hstart]
        rfl
      mono := fun index hindex => by
        rw [hcount] at hindex
        rw [h.boundaryAt_eq hindex.le, h.boundaryAt_eq hindex]
        exact boundaryOf_mono start stored (Nat.le_succ index)
      last := by rw [hcount, h.boundaryAt_eq le_rfl, boundaryOf_length, h.offsets_eq]
      jump := fun position hposition jump hjump => by
        rw [h.jumpList_eq, jumpEntries, List.getElem?_map, List.getElem?_reverse
          (by rw [List.length_range]; exact hposition), List.length_range,
          List.getElem?_range (by omega)] at hjump
        rw [← Option.some.inj hjump, show layout.jumps - position =
          layout.jumps - 1 - position + 1 by omega]
        exact h.jumpValid (layout.jumps - 1 - position + 1) }

end WrittenTrailer

end Jet3
