import Jet3.Format.DataPageBuilder

/-!
# Pages a builder built

Rows appended to a new data page are read back in order.

* `HoldsRows` says what a page with these rows looks like, and `HoldsRows.validate` that its
  directory is accepted with one entry per row;
* `Builds.appendRow` is the step of a builder, and `Builds.appendRows` a run of them;
* `Builds.finish` is the page as it is written to the file.
-/

namespace Jet3

open Outcome

/-- The bytes of the first `count` rows. -/
def usedBytes (rows : List (List UInt8)) (count : ℕ) : ℕ :=
  (rows.take count).flatten.length

/-- A data page with these rows and no others, packed downward from its end. -/
structure HoldsRows (page : Page) (owner : List UInt8) (rows : List (List UInt8)) : Prop where
  tag : page.get 0 = PageKind.data.tag
  owner_eq : DataPageDirectory.owner page = owner
  count_eq : DataPageDirectory.declaredRowCount page = rows.length
  room : directoryOffset + entryLen * rows.length + rows.flatten.length ≤ pageBytes
  nonempty : ∀ row ∈ rows, row ≠ []
  offset_eq : ∀ i < rows.length, rawOffset page i = pageBytes - usedBytes rows (i + 1)
  row_eq : ∀ i row, rows[i]? = some row →
    page.slice (pageBytes - usedBytes rows (i + 1)) (pageBytes - usedBytes rows i) = row

section UsedBytes

variable {rows : List (List UInt8)} {i : ℕ}

@[simp]
theorem usedBytes_zero (rows : List (List UInt8)) : usedBytes rows 0 = 0 := rfl

theorem usedBytes_succ {row : List UInt8} (h : rows[i]? = some row) :
    usedBytes rows (i + 1) = usedBytes rows i + row.length := by
  rw [usedBytes, List.take_add_one, h, Option.toList_some, List.flatten_append, List.length_append,
    List.flatten_singleton, usedBytes]

theorem usedBytes_length (rows : List (List UInt8)) :
    usedBytes rows rows.length = rows.flatten.length := by
  rw [usedBytes, List.take_length]

theorem usedBytes_le (rows : List (List UInt8)) (i : ℕ) :
    usedBytes rows i ≤ rows.flatten.length := by
  have hsplit := congrArg (fun l : List (List UInt8) => l.flatten.length)
    (List.take_append_drop i rows)
  simp only [List.flatten_append, List.length_append] at hsplit
  rw [usedBytes]
  omega

theorem usedBytes_append_left (h : i ≤ rows.length) (more : List (List UInt8)) :
    usedBytes (rows ++ more) i = usedBytes rows i := by
  rw [usedBytes, List.take_append_of_le_length h, usedBytes]

end UsedBytes

namespace HoldsRows

variable {page : Page} {owner : List UInt8} {rows : List (List UInt8)} {i : ℕ}

/-- Rows are placed from the end of the page downwards. -/
theorem rowStart_eq (h : HoldsRows page owner rows) (hi : i < rows.length) :
    rowStart page i = pageBytes - usedBytes rows (i + 1) := by
  have hpage : pageBytes = 2048 := rfl
  have hmask : offsetMask = 2 ^ 13 - 1 := rfl
  rw [rowStart, h.offset_eq i hi, hmask, Nat.and_two_pow_sub_one_of_lt_two_pow (by omega)]

/-- A row ends where the one before it starts. -/
theorem rowStop_eq (h : HoldsRows page owner rows) (hi : i < rows.length) :
    rowStop page i = pageBytes - usedBytes rows i := by
  cases i with
  | zero => rw [rowStop_zero, usedBytes_zero, Nat.sub_zero]
  | succ i => rw [rowStop_succ, h.rowStart_eq (by omega)]

/-- No directory word carries a flag. -/
theorem flag_eq_zero (h : HoldsRows page owner rows) (hi : i < rows.length) {flag n : ℕ}
    (hflag : flag = 2 ^ n) (hn : 13 ≤ n) : rawOffset page i &&& flag = 0 := by
  have hpage : pageBytes = 2048 := rfl
  have hsmall : rawOffset page i < 2 ^ n := by
    rw [h.offset_eq i hi]
    exact lt_of_le_of_lt (Nat.sub_le _ _) (lt_of_lt_of_le (by decide : pageBytes < 2 ^ 13)
      (Nat.pow_le_pow_right (by omega) hn))
  rw [hflag, Nat.and_two_pow, Nat.testBit_lt_two_pow hsmall, Bool.toNat_false, Nat.zero_mul]

theorem rowHidden_eq (h : HoldsRows page owner rows) (hi : i < rows.length) :
    rowHidden page i = false :=
  rowHidden_eq_false.mpr (h.flag_eq_zero (n := 15) hi rfl (by omega))

theorem rowOverflow_eq (h : HoldsRows page owner rows) (hi : i < rows.length) :
    rowOverflow page i = false := by
  have hflag : rawOffset page i &&& overflowFlag = 0 := h.flag_eq_zero (n := 14) hi rfl (by omega)
  rw [rowOverflow, hflag]
  rfl

/-- Every row of a built page is a valid entry of its directory. -/
theorem entryValid (h : HoldsRows page owner rows) (hi : i < rows.length) :
    EntryValid page (DataPageDirectory.directoryEnd rows.length) i := by
  obtain ⟨row, hrow⟩ : ∃ row, rows[i]? = some row := ⟨rows[i], List.getElem?_eq_getElem hi⟩
  have hne := List.length_pos_of_ne_nil (h.nonempty row (List.mem_of_getElem? hrow))
  have hroom := h.room
  have hused := usedBytes_succ hrow
  have hle := usedBytes_le rows (i + 1)
  have hstart := h.rowStart_eq hi
  have hstop := h.rowStop_eq hi
  exact
    { known := h.flag_eq_zero (n := 13) hi rfl le_rfl
      le_page := by omega
      directory_le := by
        rw [hstart, DataPageDirectory.directoryEnd]
        omega
      le_stop := by omega
      lt_page := fun _ => by omega
      lt_stop := fun _ => by omega }

theorem length_le (h : HoldsRows page owner rows) : rows.length ≤ maxRowCount := by
  have hroom := h.room
  have hpage : pageBytes = 2048 := rfl
  have hmax : maxRowCount = 1019 := rfl
  rw [directoryOffset, entryLen] at hroom
  omega

/-- The directory of a built page is accepted. -/
theorem validate (h : HoldsRows page owner rows) :
    DataPageDirectory.validate page = .ok { rowCount := rows.length, nextRow := 0 } := by
  rw [DataPageDirectory.validate_ok_iff, h.count_eq]
  exact ⟨h.length_le, fun row hrow => h.entryValid hrow, rfl⟩

/-- A write before the owner leaves the rows alone. -/
theorem write (h : HoldsRows page owner rows) {bytes : List UInt8} {offset : ℕ}
    (hoffset : 1 ≤ offset)
    (hend : offset + bytes.length ≤ ownerOffset) :
    HoldsRows (page.write offset bytes) owner rows := by
  have howner : ownerOffset = 4 := rfl
  exact
    { tag := by rw [Block.get_write_of_notMem (by omega)]; exact h.tag
      owner_eq := by
        rw [DataPageDirectory.owner, Block.slice_write_of_disjoint _ (.inr hend)]
        exact h.owner_eq
      count_eq := by
        rw [DataPageDirectory.declaredRowCount, u16At,
          Block.le_write_of_disjoint _ (.inr (by rw [rowCountOffset]; omega))]
        exact h.count_eq
      room := h.room
      nonempty := h.nonempty
      offset_eq := fun i hi => by
        rw [rawOffset, u16At, Block.le_write_of_disjoint _ (.inr (by rw [directoryOffset]; omega))]
        exact h.offset_eq i hi
      row_eq := fun i row hrow => by
        have hroom := h.room
        have hle := usedBytes_le rows (i + 1)
        rw [directoryOffset] at hroom
        rw [Block.slice_write_of_disjoint _ (.inr (by omega))]
        exact h.row_eq i row hrow }

end HoldsRows

/-! ## Builders -/

namespace DataPageBuilder

/-- A builder to which these rows were appended. -/
structure Builds (builder : DataPageBuilder) (owner : List UInt8) (rows : List (List UInt8)) :
    Prop where
  holds : HoldsRows builder.image owner rows
  rowCount_eq : builder.rowCount = rows.length
  freeEnd_eq : builder.freeEnd + rows.flatten.length = pageBytes

variable {builder next : DataPageBuilder} {owner : List UInt8} {rows : List (List UInt8)}

/-- A builder keeps its rows behind its directory. -/
theorem Builds.invariant (h : Builds builder owner rows) : builder.Invariant := by
  have hroom := h.holds.room
  have hend := h.freeEnd_eq
  constructor
  · omega
  · rw [h.rowCount_eq]
    omega

/-- A new builder has no rows. -/
theorem builds_empty {image : Page} (hlength : owner.length = 4)
    (himage : image = (PageKind.newImage .data).write ownerOffset owner) :
    Builds { image, rowCount := 0, freeEnd := pageBytes } owner [] := by
  subst himage
  refine ⟨?_, rfl, rfl⟩
  exact
    { tag := by rw [Block.get_write_of_notMem (by rw [ownerOffset]; omega)]; rfl
      owner_eq := Block.slice_write_self _ (by rw [hlength]) (by decide)
      count_eq := by
        rw [DataPageDirectory.declaredRowCount, u16At,
          Block.le_write_of_disjoint _ (.inr (by rw [hlength]; decide))]
        rfl
      room := by decide
      nonempty := by simp
      offset_eq := by simp
      row_eq := by simp }

/-- The builder of a page of long values. -/
theorem newLongValue_ok :
    ∃ builder, newLongValue = .ok builder ∧ Builds builder longValueOwner [] := by
  have hfits : ownerOffset + longValueOwner.length ≤ pageBytes := by decide
  refine ⟨_, ?_, builds_empty rfl rfl⟩
  simp only [newLongValue, encode, bind_ok_iff, mapError_ok_iff, writeAt_ok_iff, pure_ok_iff]
  exact ⟨_, ⟨hfits, rfl⟩, rfl⟩

/-- The builder of a page of a table. -/
theorem builds_new {root : PageNumber} (h : new root = .ok builder) :
    Builds builder (leBytes 4 root) [] := by
  obtain ⟨-, rfl⟩ := new_ok_iff.mp h
  exact builds_empty (length_leBytes 4 root) rfl

/-- An appended row is held behind those before it. -/
theorem Builds.appendRow {row : List UInt8} {slot : UInt8} (h : Builds builder owner rows)
    (happend : builder.appendRow row = .ok (next, slot)) :
    Builds next owner (rows ++ [row]) ∧ slot = UInt8.ofNat rows.length ∧
      rows.length < maxBuiltRows := by
  obtain ⟨hne, hslots, hfits, hslot, rfl⟩ := (appendRow_ok_iff h.invariant).mp happend
  have hcount := h.rowCount_eq
  have hend := h.freeEnd_eq
  have hroom := h.holds.room
  have hpositive := List.length_pos_of_ne_nil hne
  have hpage : pageBytes = 2048 := rfl
  have hentry : ∀ n, directoryOffset + entryLen * n = 10 + 2 * n := fun _ => rfl
  have hlen : entryLen = 2 := rfl
  have howner : ownerOffset = 4 := rfl
  have hcountOffset : rowCountOffset = 8 := rfl
  have hmax : maxBuiltRows = 255 := rfl
  rw [freeBytes, hentry, hlen] at hfits
  rw [hentry] at hroom ⊢
  refine ⟨⟨?_, by simp [hcount], ?_⟩, by rw [hslot, hcount], by omega⟩
  · have hword : ∀ n, (leBytes 2 n).length = 2 := length_leBytes 2
    -- the new row stands in front of the rows before it, whose places stay
    have hlast : usedBytes (rows ++ [row]) (rows.length + 1) =
      pageBytes - (builder.freeEnd - row.length) := by
      rw [@usedBytes_succ (rows ++ [row]) rows.length row (by simp), usedBytes_append_left le_rfl,
        usedBytes_length]
      omega
    have hbefore : ∀ i ≤ rows.length, usedBytes (rows ++ [row]) i = usedBytes rows i :=
      fun i hi => usedBytes_append_left hi [row]
    exact
      { tag := by
          rw [Block.get_write_of_notMem (by omega), Block.get_write_of_notMem (by omega),
            Block.get_write_of_notMem (by omega)]
          exact h.holds.tag
        owner_eq := by
          rw [DataPageDirectory.owner, Block.slice_write_of_disjoint _ (.inl (by omega)),
            Block.slice_write_of_disjoint _ (.inl (by omega)),
            Block.slice_write_of_disjoint _ (.inl (by omega))]
          exact h.holds.owner_eq
        count_eq := by
          rw [DataPageDirectory.declaredRowCount, u16At, Block.le_write_self _ (hword _) (by omega),
            leValue_leBytes_of_lt (by omega), List.length_append, hcount, List.length_singleton]
        room := by
          rw [hentry, List.length_append, List.flatten_append, List.length_append,
            List.flatten_singleton, List.length_singleton]
          omega
        nonempty := by
          intro other hother
          rcases List.mem_append.mp hother with hold | hnew
          · exact h.holds.nonempty other hold
          · rwa [List.mem_singleton.mp hnew]
        offset_eq := fun i hi => by
          rw [List.length_append, List.length_singleton] at hi
          rw [rawOffset, u16At, hentry, Block.le_write_of_disjoint _ (.inr (by rw [hword]; omega))]
          rcases Nat.lt_succ_iff_lt_or_eq.mp hi with hold | rfl
          · rw [Block.le_write_of_disjoint _ (.inl (by omega)),
              Block.le_write_of_disjoint _ (.inl (by omega)), hbefore (i + 1) hold, ← hentry]
            exact h.holds.offset_eq i hold
          · rw [hcount, Block.le_write_self _ (hword _) (by omega),
              leValue_leBytes_of_lt (by omega), hlast]
            omega
        -- a row is an old one, in front of which was written, or the new one
        row_eq := fun i other hother => by
          have hi : i < rows.length + 1 := by
            simpa using (List.getElem?_eq_some_iff.mp hother).1
          rcases Nat.lt_succ_iff_lt_or_eq.mp hi with hold | rfl
          · have hrow : rows[i]? = some other := by rwa [List.getElem?_append_left hold] at hother
            have hle := usedBytes_le rows (i + 1)
            rw [hbefore i hold.le, hbefore (i + 1) hold,
              Block.slice_write_of_disjoint _ (.inr (by rw [hword]; omega)),
              Block.slice_write_of_disjoint _ (.inr (by rw [hword]; omega)),
              Block.slice_write_of_disjoint _ (.inr (by omega))]
            exact h.holds.row_eq i other hrow
          · obtain rfl : row = other := by simpa using hother
            rw [hlast, hbefore _ le_rfl, usedBytes_length,
              Block.slice_write_of_disjoint _ (.inr (by rw [hword]; omega)),
              Block.slice_write_of_disjoint _ (.inr (by rw [hword]; omega)),
              show pageBytes - (pageBytes - (builder.freeEnd - row.length)) =
                builder.freeEnd - row.length by omega]
            exact Block.slice_write_self _ (by omega) (by omega) }
  · rw [List.flatten_append, List.length_append, List.flatten_singleton]
    show builder.freeEnd - row.length + _ = _
    omega

/-- A run of a builder over rows it accepts. -/
def appendRows (builder : DataPageBuilder) (rows : List (List UInt8)) :
    Except PageImageError DataPageBuilder :=
  rows.foldlM (fun builder row => do
    let (next, _) ← builder.appendRow row
    return next) builder

/-- All rows of a run are held, in order. -/
theorem Builds.appendRows {more : List (List UInt8)} (h : Builds builder owner rows)
    (happend : builder.appendRows more = .ok next) : Builds next owner (rows ++ more) := by
  refine foldlM_ok_induction (fun done state => Builds state owner (rows ++ done))
    (by rwa [List.append_nil]) ?_ happend
  intro done row rest state state' _ hstate hstep
  simp only [bind_ok_iff, Prod.exists, pure_ok_iff] at hstep
  obtain ⟨_, _, happend, rfl⟩ := hstep
  rw [← List.append_assoc]
  exact (hstate.appendRow happend).1

end DataPageBuilder

/-- `finish_data_builder`: the page with its free space noted. -/
def finishDataBuilder (builder : DataPageBuilder) : Except Error Page := do
  let free ← okOr (toU16 builder.freeBytes) (.integerConversion builder.freeBytes "u16")
  writeAt builder.image 1 (1 :: leBytes 2 free)

/-- The finished page holds the rows appended, and notes the bytes left for one more. -/
theorem DataPageBuilder.Builds.finish {builder : DataPageBuilder} {owner : List UInt8}
    {rows : List (List UInt8)} (h : Builds builder owner rows) :
    ∃ page, finishDataBuilder builder = .ok page ∧ HoldsRows page owner rows ∧
      u16At page freeSpaceOffset = builder.freeBytes := by
  have hend := h.freeEnd_eq
  have hpage : pageBytes = 2048 := rfl
  have hsmall : builder.freeBytes < 65536 := by
    rw [freeBytes]
    omega
  have hlength : (1 :: leBytes 2 builder.freeBytes).length = 3 := by
    rw [List.length_cons, length_leBytes]
  refine ⟨builder.image.write 1 (1 :: leBytes 2 builder.freeBytes), ?_, ?_, ?_⟩
  · simp only [finishDataBuilder, bind_ok_iff, okOr_ok_iff, toU16_eq_some, writeAt_ok_iff]
    exact ⟨_, ⟨hsmall, rfl⟩, by omega, rfl⟩
  · exact h.holds.write le_rfl (by rw [hlength]; decide)
  · have hread : (builder.image.write 1 (1 :: leBytes 2 builder.freeBytes)).slice 2 (1 + 3) =
        leBytes 2 builder.freeBytes := by
      have hdrop := builder.image.slice_write_drop (show 1 ≤ 2 by omega)
        (show 1 + (1 :: leBytes 2 builder.freeBytes).length ≤ pageBytes by omega)
      rw [hlength] at hdrop
      exact hdrop
    rw [u16At, Block.le, freeSpaceOffset, hread]
    exact leValue_leBytes_of_lt hsmall

end Jet3
