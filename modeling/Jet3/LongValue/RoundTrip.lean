import Jet3.Format.BuiltPage
import Jet3.Library.Lookup
import Jet3.LongValue.Stream

/-!
# Long values are read back

A payload that was written as a header and rows is what a stream over them returns.

* `validateLvalRow_holdsRows` finds a row on a built page;
* `chain_of_rows` says that encoded rows link to each other as planned;
* `ReadsAs` says what a stored field stands for; `readsAs_inline` and `readsAs_external` are the
  round trips of the storage forms.
-/

namespace Jet3

open Outcome

namespace LongValue

/-! ## Rows of built pages -/

/-- A slot is found by its row. -/
theorem slot_eq_iff {locator : RowLocator} {row : ℕ} (h : row < 256) :
    ({ page := locator.page, slot := UInt8.ofNat row } : RowLocator) = locator ↔
      row = locator.slot.toNat := by
  obtain ⟨page, slot⟩ := locator
  simp only [RowLocator.mk.injEq, true_and, ← UInt8.toNat_inj, UInt8.toNat_ofNat']
  omega

/-- A row of a built payload page is found. -/
theorem validateLvalRow_holdsRows {page : Page} {rows : List (List UInt8)} {locator : RowLocator}
    {row : List UInt8} (h : HoldsRows page longValueOwner rows) (hcount : rows.length ≤ 256)
    (hrow : rows[locator.slot.toNat]? = some row) :
    ∃ range, validateLvalRow locator page = .ok range ∧ page.slice range.start range.stop =
      row := by
  have hslot : locator.slot.toNat < rows.length := (List.getElem?_eq_some_iff.mp hrow).1
  let target : Range :=
    { start := rowStart page locator.slot.toNat, stop := rowStop page locator.slot.toNat }
  -- the scan has passed the rows so far, and knows the range once it has passed the row
  obtain ⟨scan, hscan, -, htarget⟩ := exists_foldlM_ok
    (f := scanRow locator page rows.length) (l := List.range rows.length)
    (s := { prior := pageBytes, target := none })
    (fun done scan => scan.prior = rowStop page done.length ∧
      scan.target = if locator.slot.toNat < done.length then some target else none)
    ⟨(rowStop_zero page).symm, rfl⟩
    (by
      rintro done i rest ⟨prior, found⟩ hsplit ⟨rfl, rfl⟩
      obtain rfl : i = done.length := (Lookup.range_split hsplit).1
      have hi : done.length < rows.length := (Lookup.range_split hsplit).2
      have hvalid := h.entryValid hi
      have hstart : rawOffset page done.length &&& offsetMask = rawOffset page done.length := by
        have hstart := h.rowStart_eq hi
        rw [rowStart] at hstart
        rw [hstart, h.offset_eq _ hi]
      have hrange : rowStart page done.length = rawOffset page done.length := hstart
      have hstep : scanRow locator page rows.length
          { prior := rowStop page done.length
            target := if locator.slot.toNat < done.length then some target else none }
          done.length = .ok
            { prior := rowStart page done.length
              target := if done.length = locator.slot.toNat then
                  some { start := rowStart page done.length, stop := rowStop page done.length }
                else if locator.slot.toNat < done.length then some target else none } := by
        have hplain : ¬(0 = hiddenFlag + overflowFlag ∧ rawOffset page done.length =
            rowStop page done.length ∧
            ({ page := locator.page, slot := UInt8.ofNat done.length } : RowLocator) ≠ locator) :=
          fun hflag => absurd hflag.1 (by decide)
        simp only [scanRow, hstart, Nat.sub_self, if_neg hplain, bind_ok_iff, exists_unit,
          refuseIf_ok_iff, pure_ok_iff, hrange, slot_eq_iff (show done.length < 256 by omega)]
        refine ⟨not_not.mpr rfl, ?_, trivial⟩
        have hstop := hvalid.lt_stop (h.rowHidden_eq hi)
        have hle := hvalid.le_stop
        have hdirectory := hvalid.directory_le
        rw [hrange] at hstop hle hdirectory
        omega
      refine ⟨_, hstep, ?_, ?_⟩
      · rw [List.length_append, List.length_singleton, rowStop_succ]
      · rw [List.length_append, List.length_singleton]
        by_cases hhere : done.length = locator.slot.toNat
        · rw [if_pos hhere, if_pos (by omega), hhere]
        · by_cases hpast : locator.slot.toNat < done.length
          · rw [if_neg hhere, if_pos hpast, if_pos (by omega)]
          · rw [if_neg hhere, if_neg hpast, if_neg (by omega)])
  refine ⟨target, ?_, ?_⟩
  · rw [List.length_range, if_pos hslot] at htarget
    have hmax := h.length_le
    simp only [validateLvalRow, h.owner_eq, h.count_eq, bind_ok_iff, exists_unit, refuseIf_ok_iff,
      okOr_ok_iff]
    exact ⟨not_not.mpr rfl, by omega, scan, hscan, htarget⟩
  · show page.slice (rowStart page _) (rowStop page _) = row
    rw [h.rowStart_eq hslot, h.rowStop_eq hslot]
    exact h.row_eq _ row hrow

/-- The rows of a built payload page are rows of the file it is written to. -/
theorem rowAt_of_holdsRows {file : PageFile} {page : Page} {rows : List (List UInt8)}
    {locator : RowLocator} {row : List UInt8} (hpage : file[locator.page]? = some page)
    (hzero : locator.page ≠ 0) (h : HoldsRows page longValueOwner rows) (hcount : rows.length ≤ 256)
    (hrow : rows[locator.slot.toNat]? = some row) : RowAt file locator row := by
  obtain ⟨range, hrange, hslice⟩ := validateLvalRow_holdsRows h hcount hrow
  have hkind : classifyPage locator.page page = .data :=
    (classifyPage_eq_iff hzero (by simp) (by simp)).mpr h.tag
  exact ⟨page, range, hpage, hkind, hrange, hslice.symm⟩

/-! ## Rows of a chain -/

/-- A pointer has its full length, also where there is no next fragment. -/
theorem length_of_chainPointer {next : Option RowLocator} {pointer : List UInt8}
    (h : chainPointer next = .ok pointer) : pointer.length = chainPointerLen := by
  cases next with
  | none =>
    cases h
    rfl
  | some locator =>
    simp only [chainPointer, ite_error_ok_iff] at h
    exact length_of_encodeLocator h.2

/-- A chained row is split into its fragment and the row it was linked to. -/
theorem splitRow_encodeChainedRow {locator : RowLocator} {fragment bytes : List UInt8}
    {next : Option RowLocator} {available : ℕ}
    (h : encodeChainedRow fragment next available = .ok bytes) :
    LongValueCursor.splitRow .chained locator bytes = .ok (fragment, next) := by
  obtain ⟨-, -, -, pointer, hpointer, rfl⟩ := encodeChainedRow_ok_iff.mp h
  have hlength := length_of_chainPointer hpointer
  have hnext : (if pointer ≠ [0, 0, 0, 0] then some (LongValue.decodeLocator pointer) else none) =
      next := by
    cases next with
    | none =>
      cases hpointer
      rfl
    | some target =>
      simp only [chainPointer, ite_error_ok_iff, Bool.not_eq_true] at hpointer
      have hne : pointer ≠ [0, 0, 0, 0] := encodeLocator_ne_zero hpointer.2 hpointer.1
      rw [if_pos hne, decodeLocator_encodeLocator hpointer.2]
  simp only [LongValueCursor.splitRow, List.take_left' hlength, List.drop_left' hlength, hnext,
    bind_ok_iff, exists_unit, refuseIf_ok_iff, pure_ok_iff]
  refine ⟨?_, trivial⟩
  rw [List.length_append, hlength]
  omega

/-- Encoded rows, each linked to the next, are a chain. -/
theorem chain_of_rows {file : PageFile} {entries : List (RowLocator × List UInt8)} {available : ℕ}
    (hne : entries ≠ [])
    (h : ∀ i entry, entries[i]? = some entry → ∃ bytes,
      encodeChainedRow entry.2 ((entries[i + 1]?).map Prod.fst) available = .ok bytes ∧
        RowAt file entry.1 bytes) :
    Chain file .chained entries := by
  induction entries with
  | nil => exact absurd rfl hne
  | cons entry rest ih =>
    obtain ⟨place, fragment⟩ := entry
    obtain ⟨bytes, hbytes, hrow⟩ := h 0 _ rfl
    cases rest with
    | nil => exact .last hrow (splitRow_encodeChainedRow hbytes)
    | cons entry others =>
      obtain ⟨next, following⟩ := entry
      refine .link hrow (splitRow_encodeChainedRow hbytes) ?_
        (ih (List.cons_ne_nil _ _) fun i entry hentry => h (i + 1) entry hentry)
      -- the fragment behind the link is not empty
      obtain ⟨bytes', hbytes', -⟩ := h 1 _ rfl
      have hfragment := (encodeChainedRow_ok_iff.mp hbytes').1
      simp only [List.flatMap_cons]
      exact List.append_ne_nil_of_left_ne_nil hfragment _

/-! ## Headers -/

/-- The control word is split into its flag and its length. -/
theorem control_split {flag length : ℕ} (hflag : 2 ^ 24 ∣ flag)
    (hlength : length ≤ maxDeclaredLength) :
    (flag + length) % lengthBound = length ∧ flag + length - length = flag := by
  obtain ⟨high, rfl⟩ := hflag
  have hmax : maxDeclaredLength = 2 ^ 24 - 1 := rfl
  have hbound : lengthBound = 2 ^ 24 := rfl
  rw [hbound]
  omega

/-- The control word is read from the start of a header. -/
theorem leAt_control {control : ℕ} {rest : List UInt8} (h : control < 2 ^ 32) :
    leAt ((leBytes 4 control ++ rest).take headerLen) 0 4 = control := by
  rw [leAt, List.drop_zero, List.take_take, Nat.min_eq_left (by decide),
    List.take_left' (length_leBytes 4 control)]
  exact leValue_leBytes_of_lt h

/-- An inline header is decoded to its payload. -/
theorem decode_inline {payload bytes : List UInt8} {available : ℕ} {source : RowLocator}
    {kind : LongValueKind} {codePage : TextCodePage} {value : LongValueBytes}
    (h : encodeInlineLongValue payload available = .ok bytes)
    (hvalue : kind.interpret codePage payload = .ok value) :
    LongValue.decode bytes source kind codePage = .ok (.inline (bytes.take headerLen) value) := by
  obtain ⟨hlength, -, rfl⟩ := encodeInlineLongValue_ok_iff.mp h
  have hmax : maxDeclaredLength = 2 ^ 24 - 1 := rfl
  have hflag : inlineFlag = 2 ^ 31 := rfl
  have hheader : headerLen = 12 := rfl
  obtain ⟨hdeclared, hflags⟩ :=
    control_split (show 2 ^ 24 ∣ inlineFlag by decide) hlength
  have hsize : (leBytes 4 (inlineFlag + payload.length) ++ (List.replicate 8 0 ++ payload)).length =
      headerLen + payload.length := by
    simp only [List.length_append, length_leBytes, List.length_replicate, hheader]
    omega
  have hfront : (leBytes 4 (inlineFlag + payload.length) ++ List.replicate 8 0).length =
    headerLen := by
    rw [List.length_append, length_leBytes, List.length_replicate]
    rfl
  have hpayload : (leBytes 4 (inlineFlag + payload.length) ++
      (List.replicate 8 0 ++ payload)).drop headerLen = payload := by
    rw [← List.append_assoc, List.drop_left' hfront]
  have hreserved : ((leBytes 4 (inlineFlag + payload.length) ++
      (List.replicate 8 0 ++ payload)).take headerLen).drop 4 = List.replicate 8 0 := by
    rw [← List.append_assoc, List.take_left' hfront, List.drop_left' (length_leBytes 4 _)]
  simp only [LongValue.decode, leAt_control (show inlineFlag + payload.length < 2 ^ 32 by omega),
    hdeclared, hflags, if_true, hpayload, hreserved, hsize, bind_ok_iff, exists_unit,
    refuseIf_ok_iff, pure_ok_iff]
  exact ⟨by omega, by decide, by omega, value, hvalue, rfl⟩

/-- An external header is decoded to the target, the length and the storage form it was written
with. -/
theorem decode_external {length : ℕ} {storage : ExternalLongValueStorage} {target : RowLocator}
    {bytes : List UInt8} {source : RowLocator} {kind : LongValueKind} {codePage : TextCodePage}
    (h : externalLongValueHeader length storage target = .ok bytes) :
    LongValue.decode bytes source kind codePage = .ok (.external
      { rawHeader := bytes, source, target, length, storage, kind, codePage }) := by
  obtain ⟨-, hlength, hnull, hpage, rfl⟩ := externalLongValueHeader_ok_iff.mp h
  have hdeclared := hlength.trans storage.maximum_le
  have hmax : maxDeclaredLength = 2 ^ 24 - 1 := rfl
  obtain ⟨hlow, hflags⟩ := control_split storage.dvd_flag hdeclared
  have hflag : storage.flagAndMaximum.1 ≤ 2 ^ 30 := by cases storage <;> decide
  have hlocator : encodeLocator target = .ok (target.slot :: leBytes 3 target.page) :=
    encodeLocator_ok_iff.mpr ⟨hpage, rfl⟩
  have hpointer : (target.slot :: leBytes 3 target.page).length = 4 :=
    length_of_encodeLocator hlocator
  have hsize : (leBytes 4 (storage.flagAndMaximum.1 + length) ++
      ((target.slot :: leBytes 3 target.page) ++ List.replicate 4 0)).length = headerLen := by
    rw [List.length_append, List.length_append, hpointer, length_leBytes, List.length_replicate]
    rfl
  -- the header is cut into its control word, the locator and the reserved bytes
  have htarget : (((leBytes 4 (storage.flagAndMaximum.1 + length) ++
      ((target.slot :: leBytes 3 target.page) ++
        List.replicate 4 0)).take headerLen).drop 4).take 4 =
          target.slot :: leBytes 3 target.page := by
    rw [List.take_of_length_le hsize.le, List.drop_left' (length_leBytes 4 _),
      List.take_left' hpointer]
  have hreserved : ((leBytes 4 (storage.flagAndMaximum.1 + length) ++
      ((target.slot :: leBytes 3 target.page) ++ List.replicate 4 0)).take headerLen).drop 8 =
        List.replicate 4 0 := by
    rw [List.take_of_length_le hsize.le, ← List.append_assoc, List.drop_left']
    rw [List.length_append, hpointer, length_leBytes]
  have hnotNull : ¬(target.page = 0 ∧ target.slot = 0) := by
    rintro ⟨hpage, hslot⟩
    simp [isNull, hpage, hslot] at hnull
  have hnotInline : storage.flagAndMaximum.1 ≠ inlineFlag := by cases storage <;> decide
  -- the flag tells the two ways of storage apart, and both from an inline value
  have hexternal : storage.flagAndMaximum.1 = singlePageFlag ∨
      storage.flagAndMaximum.1 = chainedFlag := by cases storage <;> decide
  have hstorage : (if storage.flagAndMaximum.1 = singlePageFlag then
      ExternalLongValueStorage.singlePage else .chained) = storage := by cases storage <;> rfl
  simp only [LongValue.decode,
    leAt_control (show storage.flagAndMaximum.1 + length < 2 ^ 32 by omega), hlow, hflags,
    if_neg hnotInline, if_pos hexternal, hstorage, htarget, decodeLocator_encodeLocator hlocator,
    hreserved, hsize, bind_ok_iff, exists_unit, refuseIf_ok_iff, pure_ok_iff]
  exact ⟨by omega, not_not.mpr rfl, by decide, hnotNull, by rw [List.take_of_length_le hsize.le]⟩

/-! ## Fields -/

/-- A stored field of a long-value column stands for this payload: it holds it, or its stream
returns it. -/
def ReadsAs (file : PageFile) (source : RowLocator) (kind : LongValueKind) (codePage : TextCodePage)
    (field payload : List UInt8) : Prop :=
  (∃ rawHeader value, LongValue.decode field source kind codePage = .ok (.inline rawHeader value) ∧
    value.rawBytes = payload) ∨
  ∃ reference fuel chunks, LongValue.decode field source kind codePage = .ok (.external reference) ∧
    reference.length = payload.length ∧
    LongValueCursor.drain file fuel (.new reference) = .ok (some chunks) ∧
    chunks.flatMap (fun chunk => chunk.value.rawBytes) = payload

/-- An inline payload is read from the row alone. -/
theorem readsAs_inline {file : PageFile} {source : RowLocator} {kind : LongValueKind}
    {codePage : TextCodePage} {payload bytes : List UInt8} {available : ℕ}
    (h : encodeInlineLongValue payload available = .ok bytes)
    (hreadable : Readable kind codePage payload) :
    ReadsAs file source kind codePage bytes payload := by
  obtain ⟨value, hvalue⟩ := LongValueKind.exists_interpret_iff.mpr hreadable
  exact .inl ⟨_, value, decode_inline h hvalue, LongValueKind.rawBytes_of_interpret hvalue⟩

/-- A header whose target is the first row of a chain stands for the payload of the chain. -/
theorem readsAs_external {file : PageFile} {source target : RowLocator} {kind : LongValueKind}
    {codePage : TextCodePage} {payload bytes : List UInt8} {storage : ExternalLongValueStorage}
    {entries : List (RowLocator × List UInt8)}
    (h : externalLongValueHeader payload.length storage target = .ok bytes)
    (hchain : Chain file storage entries) (hfirst : entries.head?.map Prod.fst = some target)
    (hpayload : entries.flatMap Prod.snd = payload) (hdistinct : (entries.map Prod.fst).Nodup)
    (hsource : ∀ entry ∈ entries, entry.1 ≠ source) (hreadable : Readable kind codePage payload) :
    ReadsAs file source kind codePage bytes payload := by
  let reference : LongValueReference :=
    { rawHeader := bytes, source, target, length := payload.length, storage, kind, codePage }
  have hstreams : LongValueCursor.Streams file (.new reference) target entries :=
    { chain := hchain
      first := hfirst
      distinct := hdistinct
      fresh := fun _ _ => List.not_mem_nil
      notSource := hsource
      length_eq := by
        rw [hpayload]
        exact Nat.zero_add _
      readable := fun entry hentry hmemo byte hbyte => by
        refine hreadable hmemo byte ?_
        rw [← hpayload]
        exact List.mem_flatMap.mpr ⟨entry, hentry, hbyte⟩ }
  obtain ⟨chunks, hdrain, hchunks⟩ :=
    LongValueCursor.drain_of_streams rfl rfl hstreams (Nat.lt_succ_self entries.length)
  refine .inr ⟨reference, _, chunks, decode_external h, rfl, hdrain, ?_⟩
  rw [← hpayload, ← hchunks, List.flatMap_map]
  rfl

end LongValue

end Jet3
